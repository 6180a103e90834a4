import Interop.Report
import Interop.Proofs.Renaming

/-! Emitting under renamed positions. Two computations that take decisions are alike if, from memos with
the same decisions up to the positions, they give the same result and leave such memos again. Emitting a
declaration of a repository is alike in two graphs that have the repository in common. -/

namespace Interop

/-! ### Decisions -/

/-- Results that are related, or faults that are equal. -/
inductive Alike {α β : Type} (R : α → β → Prop) : Except Fault α → Except Fault β → Prop
  | error (fault : Fault) : Alike R (.error fault) (.error fault)
  | ok {a : α} {b : β} (h : R a b) : Alike R (.ok a) (.ok b)

theorem Alike.refl {α : Type} (x : Except Fault α) : Alike Eq x x := by
  cases x with
  | error fault => exact .error fault
  | ok a => exact .ok rfl

theorem Alike.eq {α : Type} {x y : Except Fault α} (h : Alike Eq x y) : y = x := by
  cases h with
  | error => rfl
  | ok h => rw [h]

/-- A decided type and the same one under renamed positions. -/
def Decided (ρ : RepositoryId → RepositoryId) (ids : List RepositoryId) (d d' : DecidedType) : Prop :=
  d' = d.rename ρ ∧ d.Within ids

/-- Two memos have taken the same decisions for a repository. -/
def Memo.Matches (ρ : RepositoryId → RepositoryId) (ids : List RepositoryId) (id : RepositoryId)
    (m m' : Memo) : Prop :=
  ∀ place slot, Option.Rel (Decided ρ ids) (m.get? ⟨id, place, slot⟩) (m'.get? ⟨ρ id, place, slot⟩)

/-- From matching memos, two computations give related results and leave matching memos. -/
def Simulates {α β : Type} (ρ : RepositoryId → RepositoryId) (ids : List RepositoryId)
    (id : RepositoryId) (R : α → β → Prop) (x : Deciding α) (y : Deciding β) : Prop :=
  ∀ m m', Memo.Matches ρ ids id m m' →
    Alike R (x.run.run m).1 (y.run.run m').1 ∧ Memo.Matches ρ ids id (x.run.run m).2 (y.run.run m').2

namespace Simulates

variable {ρ : RepositoryId → RepositoryId} {ids : List RepositoryId} {id : RepositoryId}
  {α β γ δ : Type} {R : α → β → Prop} {Q : γ → δ → Prop}

theorem pure {a : α} {b : β} (h : R a b) :
    Simulates ρ ids id R (Pure.pure a) (Pure.pure b) :=
  fun _ _ hm => ⟨.ok h, hm⟩

theorem bind {x : Deciding α} {y : Deciding β} {next : α → Deciding γ} {next' : β → Deciding δ}
    (h : Simulates ρ ids id R x y) (hnext : ∀ a b, R a b → Simulates ρ ids id Q (next a) (next' b)) :
    Simulates ρ ids id Q (x >>= next) (y >>= next') := by
  intro m m' hm
  obtain ⟨halike, hleft⟩ := h m m' hm
  rw [run_bind, run_bind]
  generalize x.run.run m = left at halike hleft
  generalize y.run.run m' = right at halike hleft
  obtain ⟨result, m⟩ := left
  obtain ⟨result', m'⟩ := right
  cases halike with
  | error fault => exact ⟨.error fault, hleft⟩
  | ok hab => exact hnext _ _ hab m m' hleft

theorem ofExcept {x : Except Fault α} {y : Except Fault β} (h : Alike R x y) :
    Simulates ρ ids id R (liftExcept x) (liftExcept y) := by
  intro m m' hm
  cases h with
  | error fault => exact ⟨.error fault, hm⟩
  | ok hab => exact ⟨.ok hab, hm⟩

theorem map {x : Deciding α} {y : Deciding β} {f : α → γ} {f' : β → δ}
    (h : Simulates ρ ids id R x y) (hf : ∀ a b, R a b → Q (f a) (f' b)) :
    Simulates ρ ids id Q (f <$> x) (f' <$> y) := by
  rw [map_eq_pure_bind, map_eq_pure_bind]
  exact h.bind fun a b hab => .pure (hf a b hab)

theorem listMapM {f : α → Deciding γ} {f' : α → Deciding γ} {items : List α}
    (h : ∀ a ∈ items, Simulates ρ ids id Eq (f a) (f' a)) :
    Simulates ρ ids id Eq (items.mapM f) (items.mapM f') := by
  induction items with
  | nil => exact .pure rfl
  | cons a items ih =>
      rw [List.mapM_cons, List.mapM_cons]
      refine (h a (by simp)).bind ?_
      rintro b _ rfl
      refine (ih fun c hc => h c (List.mem_cons_of_mem _ hc)).bind ?_
      rintro rest _ rfl
      exact .pure rfl

theorem optionMapM {f : α → Deciding γ} {f' : α → Deciding γ} {item : Option α}
    (h : ∀ a, Simulates ρ ids id Eq (f a) (f' a)) :
    Simulates ρ ids id Eq (item.mapM f) (item.mapM f') := by
  cases item with
  | none => exact .pure rfl
  | some a =>
      refine (h a).map ?_
      rintro b _ rfl
      rfl

end Simulates

theorem run_resolve (g : Graph) (site : Site) (reference : TypeReference) (m : Memo) :
    (g.resolve site reference).run.run m = match m.get? site with
      | some d => (.ok d, m)
      | none => match g.decide site.repository reference with
        | .error fault => (.error fault, m)
        | .ok d => (.ok d, m.keep site d) := by
  rw [Graph.resolve, run_bind]
  show (match m.get? site with | some d => _ | none => _ : Deciding DecidedType).run.run m = _
  cases m.get? site with
  | some d => rfl
  | none =>
      simp only
      rw [run_bind]
      cases g.decide site.repository reference <;> rfl

theorem Memo.Matches.keep {ρ : RepositoryId → RepositoryId} {ids : List RepositoryId}
    {id : RepositoryId} {m m' : Memo} (hm : Memo.Matches ρ ids id m m') {place : Place} {slot : TypeSlot}
    {d d' : DecidedType} (hd : Decided ρ ids d d') (hnone : m.get? ⟨id, place, slot⟩ = none)
    (hnone' : m'.get? ⟨ρ id, place, slot⟩ = none) :
    Memo.Matches ρ ids id (m.keep ⟨id, place, slot⟩ d) (m'.keep ⟨ρ id, place, slot⟩ d') := by
  intro place' slot'
  rw [get?_keep, get?_keep, hnone, hnone']
  by_cases hsite : place = place' ∧ slot = slot'
  · obtain ⟨rfl, rfl⟩ := hsite
    rw [if_pos ⟨rfl, rfl⟩, if_pos ⟨rfl, rfl⟩]
    exact .some hd
  · have hne : ∀ a : RepositoryId, (⟨a, place, slot⟩ : Site) ≠ ⟨a, place', slot'⟩ := by
      intro a heq
      exact hsite (Site.mk.inj heq).2
    rw [if_neg fun heq => hne id heq.1, if_neg fun heq => hne (ρ id) heq.1]
    exact hm place' slot'

namespace Graph.Transport

variable {g g' : Graph} {ρ : RepositoryId → RepositoryId} {ids : List RepositoryId}
  (h : g.Transport g' ρ ids) {id : RepositoryId} (hid : id ∈ ids)

include h hid

theorem alike_decide (reference : TypeReference) :
    Alike (Decided ρ ids) (g.decide id reference) (g'.decide (ρ id) reference) := by
  rw [h.decide_rename hid]
  cases hd : g.decide id reference with
  | error fault => exact .error fault
  | ok d => exact .ok ⟨rfl, h.within_of_decide hid hd⟩

theorem simulates_resolve (place : Place) (slot : TypeSlot) (reference : TypeReference) :
    Simulates ρ ids id (Decided ρ ids) (g.resolve ⟨id, place, slot⟩ reference)
      (g'.resolve ⟨ρ id, place, slot⟩ reference) := by
  intro m m' hm
  rw [run_resolve, run_resolve]
  have hsite := hm place slot
  cases hget : m.get? ⟨id, place, slot⟩ with
  | some d =>
      cases hget' : m'.get? ⟨ρ id, place, slot⟩ with
      | none =>
          rw [hget, hget'] at hsite
          cases hsite
      | some d' =>
          rw [hget, hget'] at hsite
          cases hsite with
          | some hd => exact ⟨.ok hd, hm⟩
  | none =>
      cases hget' : m'.get? ⟨ρ id, place, slot⟩ with
      | some d' =>
          rw [hget, hget'] at hsite
          cases hsite
      | none =>
          have halike := h.alike_decide hid reference
          generalize g.decide id reference = decided at halike
          generalize g'.decide (ρ id) reference = decided' at halike
          cases halike with
          | error fault => exact ⟨.error fault, hm⟩
          | ok hdecided => exact ⟨.ok hdecided, hm.keep hdecided hget hget'⟩

end Graph.Transport

/-! ### Passing -/

namespace DecidedType

variable (d : DecidedType) (ρ : RepositoryId → RepositoryId)

theorem isHandle_rename : (d.rename ρ).isHandle = d.isHandle := by
  obtain ⟨representation, byRef, isArray, isPointer, lengthIndex⟩ := d
  cases representation <;> rfl

theorem isVoid_rename : (d.rename ρ).isVoid = d.isVoid := by
  obtain ⟨representation, byRef, isArray, isPointer, lengthIndex⟩ := d
  cases representation <;> rfl

theorem symbol?_rename : (d.rename ρ).symbol? = d.symbol?.map (·.rename ρ) := by
  obtain ⟨representation, byRef, isArray, isPointer, lengthIndex⟩ := d
  cases representation <;> rfl

end DecidedType

theorem MarshalHint.of?_rename (d : DecidedType) (ρ : RepositoryId → RepositoryId) (offset : Nat) :
    MarshalHint.of? (d.rename ρ) offset = MarshalHint.of? d offset := by
  obtain ⟨representation, byRef, isArray, isPointer, lengthIndex⟩ := d
  cases representation <;> rfl

/-- A way of passing with the type under renamed positions. -/
def ParameterPassing.rename (ρ : RepositoryId → RepositoryId) (passing : ParameterPassing) :
    ParameterPassing :=
  { passing with type := passing.type.rename ρ }

namespace Graph.Transport

variable {g g' : Graph} {ρ : RepositoryId → RepositoryId} {ids : List RepositoryId}
  (h : g.Transport g' ρ ids) {d : DecidedType} (hd : d.Within ids)

include h hd

theorem any_isReferenceType_rename :
    (d.rename ρ).symbol?.any g'.isReferenceType = d.symbol?.any g.isReferenceType := by
  rw [DecidedType.symbol?_rename]
  cases hsymbol : d.symbol? with
  | none => rfl
  | some symbol => exact h.isReferenceType_rename (hd symbol hsymbol)

theorem isPrimitiveValue_rename : g'.isPrimitiveValue (d.rename ρ) = g.isPrimitiveValue d := by
  obtain ⟨representation, byRef, isArray, isPointer, lengthIndex⟩ := d
  cases representation with
  | symbol address => exact congrArg Category.isPrimitive (h.category_rename (hd address rfl))
  | _ => rfl

theorem allowsNull_rename (declared : Bool) (reference : TypeReference) (target : Target) :
    g'.allowsNull declared reference (d.rename ρ) target = g.allowsNull declared reference d target := by
  cases target with
  | managed => rfl
  | native =>
      have haddress : g'.isAddress reference (d.rename ρ) = g.isAddress reference d := by
        rw [isAddress, isAddress, DecidedType.isHandle_rename, h.any_isReferenceType_rename hd,
          h.isPrimitiveValue_rename hd]
        rfl
      rw [allowsNull, allowsNull, haddress]

theorem passReceiver_rename (receiver : Parameter) (target : Target) :
    g'.passReceiver receiver (d.rename ρ) target = (g.passReceiver receiver d target).rename ρ := by
  rw [passReceiver, passReceiver, h.allowsNull_rename hd]
  rfl

omit h hd in
theorem within_passParameter (hd : d.Within ids) (parameter : Parameter) (target : Target) (offset : Nat) :
    (g.passParameter parameter d target offset).type.Within ids := by
  unfold passParameter
  dsimp only
  split
  · split
    · exact DecidedType.within_handle ids
    · exact hd
  · split
    · exact DecidedType.within_handle ids
    · exact hd

theorem passParameter_rename (parameter : Parameter) (target : Target) (offset : Nat) :
    g'.passParameter parameter (d.rename ρ) target offset =
      (g.passParameter parameter d target offset).rename ρ := by
  have hwithin := within_passParameter (g := g) hd parameter target offset
  have htype : (g'.passParameter parameter (d.rename ρ) target offset).type =
      (g.passParameter parameter d target offset).type.rename ρ := by
    simp only [passParameter, DecidedType.isVoid_rename]
    split <;> split <;> rfl
  have hnull : (g'.passParameter parameter (d.rename ρ) target offset).nullable =
      (g.passParameter parameter d target offset).nullable := by
    show g'.allowsNull _ _ (g'.passParameter parameter (d.rename ρ) target offset).type _ = _
    rw [htype, h.allowsNull_rename hwithin]
    rfl
  have hhint : (g'.passParameter parameter (d.rename ρ) target offset).hint =
      (g.passParameter parameter d target offset).hint := by
    show (if target = .native then MarshalHint.of?
      (g'.passParameter parameter (d.rename ρ) target offset).type offset else none) = _
    rw [htype, MarshalHint.of?_rename]
    rfl
  calc g'.passParameter parameter (d.rename ρ) target offset
      = ⟨Decoration.of parameter, (g'.passParameter parameter (d.rename ρ) target offset).nullable,
          (g'.passParameter parameter (d.rename ρ) target offset).hint,
          (g'.passParameter parameter (d.rename ρ) target offset).type⟩ := rfl
    _ = (g.passParameter parameter d target offset).rename ρ := by
        rw [htype, hnull, hhint]
        rfl

theorem typeName_rename {current : RepositoryId} (hcurrent : current ∈ ids) (target : Target) :
    g'.typeName (ρ current) (d.rename ρ) target = g.typeName current d target := by
  obtain ⟨representation, byRef, isArray, isPointer, lengthIndex⟩ := d
  cases representation with
  | symbol address =>
      have haddress : address.repository ∈ ids := hd address rfl
      rw [typeName, typeName]
      simp only [DecidedType.rename, Representation.rename, h.isReferenceType_rename haddress,
        h.managedName_rename haddress hcurrent]
  | _ => rfl

end Graph.Transport

/-! ### Declarations -/

namespace Graph.Transport

variable {g g' : Graph} {ρ : RepositoryId → RepositoryId} {ids : List RepositoryId}
  (h : g.Transport g' ρ ids) {id : RepositoryId} (hid : id ∈ ids)

include h hid

theorem identifier_rename (owner : Option SymbolName) (name : String) :
    (Emitter.mk g' (ρ id)).identifier owner name = (Emitter.mk g id).identifier owner name := by
  simp only [Emitter.identifier, h.namespaceName_rename hid]

theorem signalIdentifier_rename (owner : SymbolName) (signal : Signal) :
    (Emitter.mk g' (ρ id)).signalIdentifier owner signal =
      (Emitter.mk g id).signalIdentifier owner signal := by
  simp only [Emitter.signalIdentifier, h.namespaceName_rename hid]

theorem content?_rename : (Emitter.mk g' (ρ id)).content? = (Emitter.mk g id).content? := by
  rw [Emitter.content?, Emitter.content?, h.repository?_rename hid, Option.map_map]
  rfl

theorem library_rename : (Emitter.mk g' (ρ id)).library = (Emitter.mk g id).library := by
  simp only [Emitter.library, h.content?_rename hid, h.namespaceName_rename hid]

theorem parameter_rename (p : Parameter) {passing : ParameterPassing}
    (hwithin : passing.type.Within ids) (target : Target) :
    (Emitter.mk g' (ρ id)).parameter p (passing.rename ρ) target =
      (Emitter.mk g id).parameter p passing target := by
  simp only [Emitter.parameter, ParameterPassing.rename, h.typeName_rename hwithin hid]
  rfl

theorem returnType_rename (value : ReturnValue) {d : DecidedType} (hd : d.Within ids)
    (target passed : Target) :
    (Emitter.mk g' (ρ id)).returnType (g'.passReturn value (d.rename ρ) passed) target =
      (Emitter.mk g id).returnType (g.passReturn value d passed) target := by
  simp only [Emitter.returnType, passReturn, h.allowsNull_rename hd, h.typeName_rename hd hid,
    DecidedType.isVoid_rename]
  rfl

/-- Emitting something from a decided type. -/
theorem simulates_emit {α : Type} (place : Place) (slot : TypeSlot) (reference : TypeReference)
    {make make' : DecidedType → Deciding α}
    (hmake : ∀ d, d.Within ids → Simulates ρ ids id Eq (make d) (make' (d.rename ρ))) :
    Simulates ρ ids id Eq ((Emitter.mk g id).resolve place slot reference >>= make)
      ((Emitter.mk g' (ρ id)).resolve place slot reference >>= make') := by
  refine (h.simulates_resolve hid place slot reference).bind ?_
  rintro d _ ⟨rfl, hd⟩
  exact hmake d hd

theorem simulates_nativeParameters (place : Place) (list : ParameterList) (throws : Bool) :
    Simulates ρ ids id Eq ((Emitter.mk g id).nativeParameters place list throws)
      ((Emitter.mk g' (ρ id)).nativeParameters place list throws) := by
  refine Simulates.bind (R := Eq) (Simulates.optionMapM fun p => ?_) ?_
  · refine h.simulates_emit hid place .receiver p.type fun d hd => .pure ?_
    rw [h.passReceiver_rename hd, h.parameter_rename hid p hd]
  · rintro receiver _ rfl
    refine Simulates.bind (R := Eq) (Simulates.listMapM fun (p, i) _ => ?_) ?_
    · refine h.simulates_emit hid place (.parameter i) p.type fun d hd => .pure ?_
      rw [h.passParameter_rename hd, h.parameter_rename hid p (within_passParameter hd _ _ _)]
    · rintro declared _ rfl
      exact .pure rfl

theorem simulates_managedParameters (place : Place) (list : ParameterList) :
    Simulates ρ ids id Eq ((Emitter.mk g id).managedParameters place list)
      ((Emitter.mk g' (ρ id)).managedParameters place list) := by
  refine Simulates.listMapM fun (p, i) _ => ?_
  refine h.simulates_emit hid place (.parameter i) p.type fun d hd => .pure ?_
  rw [h.passParameter_rename hd, h.parameter_rename hid p (within_passParameter hd _ _ _)]

theorem simulates_function (place : Place) (owner : Option SymbolName) (c : Callable) :
    Simulates ρ ids id Eq ((Emitter.mk g id).function place owner c)
      ((Emitter.mk g' (ρ id)).function place owner c) := by
  refine h.simulates_emit hid place .result c.returnValue.type fun returned hreturned => ?_
  refine (h.simulates_nativeParameters hid place c.parameters c.throws).bind ?_
  rintro native _ rfl
  refine (h.simulates_managedParameters hid place c.parameters).bind ?_
  rintro managed _ rfl
  refine .pure ?_
  rw [h.identifier_rename hid, h.library_rename hid, h.returnType_rename hid _ hreturned,
    h.returnType_rename hid _ hreturned]

theorem simulates_callback (place : Place) (c : Callback) :
    Simulates ρ ids id Eq ((Emitter.mk g id).callback place c)
      ((Emitter.mk g' (ρ id)).callback place c) := by
  refine h.simulates_emit hid place .result c.returnValue.type fun returned hreturned => ?_
  refine (h.simulates_nativeParameters hid place c.parameters c.throws).bind ?_
  rintro native _ rfl
  refine .pure ?_
  rw [h.identifier_rename hid, h.returnType_rename hid _ hreturned]

theorem simulates_signal (place : Place) (owner : SymbolName) (s : Signal) :
    Simulates ρ ids id Eq ((Emitter.mk g id).signal place owner s)
      ((Emitter.mk g' (ρ id)).signal place owner s) := by
  refine h.simulates_emit hid place .result s.returnValue.type fun returned hreturned => ?_
  refine Simulates.bind (R := Eq) (Simulates.listMapM fun (p, i) _ => ?_) ?_
  · refine h.simulates_emit hid place (.parameter i) p.type fun d hd => .pure ?_
    rw [h.passParameter_rename hd]
    simp only [ParameterPassing.rename, h.typeName_rename (within_passParameter hd _ _ _) hid]
  · rintro arguments _ rfl
    refine .pure ?_
    rw [h.signalIdentifier_rename hid, h.returnType_rename hid _ hreturned]

theorem simulates_fields (place : Place) (fields : List Field) :
    Simulates ρ ids id Eq ((Emitter.mk g id).fields place fields)
      ((Emitter.mk g' (ρ id)).fields place fields) := by
  refine Simulates.listMapM fun (f, i) _ => ?_
  refine h.simulates_emit hid place (.field i) f.type fun d hd => .pure ?_
  rw [h.typeName_rename hd hid]

theorem simulates_layout (place : Place) (identifier : String) (name : SymbolName)
    (ctype : Option Spelling) (fields : List Field) (folder : Emitted.Folder) :
    Simulates ρ ids id Eq ((Emitter.mk g id).layout place identifier name ctype fields folder)
      ((Emitter.mk g' (ρ id)).layout place identifier name ctype fields folder) := by
  refine (h.simulates_fields hid place fields).bind ?_
  rintro emitted _ rfl
  exact .pure rfl

theorem baseName_rename (name : String) :
    (Emitter.mk g' (ρ id)).baseName name = (Emitter.mk g id).baseName name := by
  rw [Emitter.baseName, Emitter.baseName, h.lookupSymbol_rename hid]
  cases hs : g.lookupSymbol id name with
  | error fault => rfl
  | ok s =>
      have hname := h.managedName_rename (h.repository_mem_of_lookupSymbol hid hs) hid
      show Except.ok (g'.managedName (s.rename ρ) (ρ id)) = .ok (g.managedName s id)
      rw [hname]

theorem simulates_classLayout (place : Place) (identifier : String) (c : Class) :
    Simulates ρ ids id Eq ((Emitter.mk g id).classLayout place identifier c)
      ((Emitter.mk g' (ρ id)).classLayout place identifier c) := by
  refine (h.simulates_layout hid place identifier c.name c.ctype c.fields .classes).bind ?_
  rintro layout _ rfl
  have hbase : (Emitter.mk g' (ρ id)).baseName = (Emitter.mk g id).baseName := by
    funext name
    exact h.baseName_rename hid name
  rw [hbase]
  refine Simulates.bind (R := Eq) (.ofExcept (.refl _)) ?_
  rintro inheritance _ rfl
  exact .pure rfl

theorem simulates_constant (place : Place) (c : Constant) :
    Simulates ρ ids id Eq ((Emitter.mk g id).constant place c)
      ((Emitter.mk g' (ρ id)).constant place c) := by
  refine h.simulates_emit hid place .value c.type fun d hd => .pure ?_
  rw [h.identifier_rename hid, h.typeName_rename hd hid]

/-- A declaration is emitted alike. -/
theorem simulates_item (item : WorkItem) :
    Simulates ρ ids id Eq ((Emitter.mk g id).emit item) ((Emitter.mk g' (ρ id)).emit item) := by
  have hmap : ∀ {α : Type} {x y : Deciding α} (f : α → EmittedDeclaration),
      Simulates ρ ids id Eq x y → Simulates ρ ids id Eq (f <$> x) (f <$> y) := by
    intro α x y f hxy
    refine hxy.map ?_
    rintro a _ rfl
    rfl
  unfold Emitter.emit
  cases item.work with
  | callable owner c => exact hmap _ (h.simulates_function hid _ owner c)
  | callback c => exact hmap _ (h.simulates_callback hid _ c)
  | signal owner s => exact hmap _ (h.simulates_signal hid _ owner s)
  | layout name ctype fields folder => exact hmap _ (h.simulates_layout hid _ _ name ctype fields folder)
  | classLayout c => exact hmap _ (h.simulates_classLayout hid _ _ c)
  | enumeration declared =>
      refine .pure ?_
      simp only [Emitter.enumeration, h.identifier_rename hid]
  | constant c => exact hmap _ (h.simulates_constant hid _ c)

end Graph.Transport

end Interop
