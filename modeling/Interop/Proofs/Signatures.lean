import Interop.Proofs.Folding
import Interop.Proofs.Locality
import Interop.Proofs.Parameters

/-! Signatures. What is emitted for a callable or callback has the entries of its parameters, whatever was
decided before; and the parameters of a repository are as a description makes them: their managed names are
derived from the native ones, and their types stand in parameters. Main statements: `ShowsBy.native`,
`Obtained.regular`. -/

namespace Interop

/-! ### Entries -/

/-- The parameters of something with a native signature, and whether it throws. -/
def Work.signature? : Work → Option (ParameterList × Bool)
  | .callable _ c => some (c.parameters, c.throws)
  | .callback c => some (c.parameters, c.throws)
  | _ => none

namespace EmittedDeclaration

/-- The native signature of a function, method, constructor or callback. -/
def native? : EmittedDeclaration → Option (List Emitted.Parameter)
  | .function f => some f.nativeParameters
  | .callback c => some c.parameters
  | _ => none

/-- The managed signature of a function, method or constructor. -/
def managed? : EmittedDeclaration → Option (List Emitted.Parameter)
  | .function f => some f.managedParameters
  | _ => none

end EmittedDeclaration

namespace Emitter

/-- The entries behind those of the parameters. -/
def trailing (throws : Bool) : List Emitted.Parameter := if throws then [errorParameter] else []

namespace ShowsBy

variable {e : Emitter} {D : TypeReference → DecidedType → Prop} {work : Work} {declaration : EmittedDeclaration}
  {list : ParameterList} {throws : Bool}

/-- A native signature has the entries of the parameters and, if errors are thrown, the one for them. -/
theorem native (h : e.ShowsBy D work declaration) (hsignature : work.signature? = some (list, throws)) :
    ∃ shown, declaration.native? = some (shown ++ trailing throws) ∧
      List.Forall₂ (e.ShownBy D) list.nativeUses shown := by
  cases h with
  | callable hnative herror =>
      cases hsignature
      exact ⟨_, congrArg some herror, hnative⟩
  | callback hnative herror =>
      cases hsignature
      exact ⟨_, congrArg some herror, hnative⟩
  | _ => cases hsignature

theorem managed (h : e.ShowsBy D work declaration) (hsignature : work.signature? = some (list, throws))
    {shown : List Emitted.Parameter} (hshown : declaration.managed? = some shown) :
    List.Forall₂ (e.ShownBy D) list.managedUses shown := by
  cases h with
  | callable _ _ hmanaged =>
      cases hsignature
      cases hshown
      exact hmanaged
  | callback => cases hshown
  | _ => cases hsignature

end ShowsBy

/-- Whatever was decided before, the parameters of an item are shown by some types. -/
theorem showsBy_any {e : Emitter} {ns : Namespace} {m : Memo} {item : WorkItem} {declaration : EmittedDeclaration}
    (hns : e.content? = some ns) (hitem : item ∈ e.items ns) (h : e.emitFrom m item = .ok declaration) :
    e.ShowsBy (fun _ _ => True) item.work declaration :=
  showsBy_of_emitFrom (fun _ _ _ => trivial) hns (fun _ _ _ _ _ => trivial) hitem h

/-- An entry has the managed name of its parameter. -/
theorem map_name_of_shownBy {e : Emitter} {D : TypeReference → DecidedType → Prop} {uses : List ParameterUse}
    {shown : List Emitted.Parameter} (h : List.Forall₂ (e.ShownBy D) uses shown) :
    shown.map (·.name) = uses.map (·.parameter.name.managed) := by
  induction h with
  | nil => rfl
  | cons hentry _ ih =>
      obtain ⟨d, -, rfl⟩ := hentry
      rw [List.map_cons, List.map_cons, ih]
      rfl

end Emitter

/-- The parameters of a native signature are the instance and the declared ones. -/
theorem ParameterList.map_parameter_nativeUses (list : ParameterList) :
    list.nativeUses.map (·.parameter) = list.native := by
  simp only [nativeUses, native, List.map_append, List.map_map, Function.comp_def, List.map_id']

/-! ### Parameters from descriptions -/

/-- A parameter as a description makes it. -/
structure Parameter.Regular (p : Parameter) : Prop where
  name_eq : p.name = .parameter p.name.native
  context_eq : p.type.context = .parameter

/-- A name of a type or callable as a description gives it. -/
def SymbolName.IsPascal (name : SymbolName) : Prop := name = .pascal name.native

def ParameterList.Regular (list : ParameterList) : Prop := ∀ p ∈ list.native, p.Regular

def Callables.Regular (c : Callables) : Prop := ∀ kind, ∀ member ∈ c.ofKind kind, member.parameters.Regular

theorem TypeReference.context_ofDescription {type : Option Description.TypeUse}
    {array : Option Description.ArrayUse} {context : TypeContext} {owner : String} {reference : TypeReference}
    (h : TypeReference.ofDescription type array context owner = .ok reference) : reference.context = context := by
  unfold ofDescription at h
  cases type with
  | some type =>
      obtain ⟨spec, -, h⟩ := bind_eq_ok.mp h
      cases h
      rfl
  | none =>
      cases array with
      | some array =>
          obtain ⟨info, -, h⟩ := bind_eq_ok.mp h
          cases h
          rfl
      | none => cases h

theorem Parameter.regular_ofDescription {owner : String} {d : Description.Parameter} {p : Parameter}
    (h : Parameter.ofDescription owner d = .ok p) : p.Regular := by
  obtain ⟨name, -, h⟩ := bind_eq_ok.mp h
  obtain ⟨transferText, -, h⟩ := bind_eq_ok.mp h
  obtain ⟨transfer, -, h⟩ := bind_eq_ok.mp h
  dsimp only at h
  cases hdirection : Direction.ofAttribute? d.direction with
  | none =>
      rw [hdirection] at h
      cases h
  | some direction =>
      rw [hdirection] at h
      cases hvarargs : d.varargs with
      | true =>
          rw [hvarargs] at h
          cases h
          exact ⟨rfl, rfl⟩
      | false =>
          rw [hvarargs] at h
          obtain ⟨_, -, h⟩ := bind_eq_ok.mp h
          obtain ⟨type, htype, h⟩ := bind_eq_ok.mp h
          cases h
          exact ⟨rfl, TypeReference.context_ofDescription htype⟩

theorem ParameterList.regular_ofDescription {owner : String} {receiver : Option Description.Parameter}
    {parameters : List Description.Parameter} {list : ParameterList}
    (h : ParameterList.ofDescription owner receiver parameters = .ok list) : list.Regular := by
  obtain ⟨instance?, hreceiver, h⟩ := bind_eq_ok.mp h
  obtain ⟨declared, hdeclared, h⟩ := bind_eq_ok.mp h
  cases h
  intro p hp
  rcases List.mem_append.mp hp with hp | hp
  · obtain rfl := Option.mem_toList.mp hp
    cases receiver with
    | none => cases hreceiver
    | some described =>
        obtain ⟨built, hbuilt, h⟩ := bind_eq_ok.mp hreceiver
        cases h
        exact Parameter.regular_ofDescription hbuilt
  · obtain ⟨described, -, hbuilt⟩ := exists_mem_left (mapM_eq_ok.mp hdeclared) hp
    exact Parameter.regular_ofDescription hbuilt

theorem Callable.regular_ofDescription {key : NamespaceKey} {kind : CallableKind} {d : Description.Callable}
    {c : Callable} (h : Callable.ofDescription key kind d = .ok c) : c.parameters.Regular := by
  obtain ⟨name, -, h⟩ := bind_eq_ok.mp h
  obtain ⟨cIdentifier, -, h⟩ := bind_eq_ok.mp h
  obtain ⟨returnValue, -, h⟩ := bind_eq_ok.mp h
  obtain ⟨parameters, hparameters, h⟩ := bind_eq_ok.mp h
  cases h
  exact ParameterList.regular_ofDescription hparameters

theorem Callback.regular_ofDescription {key : NamespaceKey} {d : Description.Callback} {c : Callback}
    (h : Callback.ofDescription key d = .ok c) : c.name.IsPascal ∧ c.parameters.Regular := by
  obtain ⟨name, -, h⟩ := bind_eq_ok.mp h
  obtain ⟨returnValue, -, h⟩ := bind_eq_ok.mp h
  obtain ⟨parameters, hparameters, h⟩ := bind_eq_ok.mp h
  cases h
  exact ⟨rfl, ParameterList.regular_ofDescription hparameters⟩

theorem Callable.regular_listOfDescription {key : NamespaceKey} {kind : CallableKind}
    {ds : List Description.Callable} {callables : List Callable}
    (h : (Callable.listOfDescription key kind ds).outcome = .ok callables) :
    ∀ c ∈ callables, c.parameters.Regular := by
  induction ds generalizing callables with
  | nil =>
      cases h
      exact fun _ hc => absurd hc List.not_mem_nil
  | cons d ds ih =>
      rw [Callable.listOfDescription] at h
      by_cases hhidden : d.introspectable == some false
      · rw [if_pos hhidden] at h
        simp only [Logged.outcome_bind, Logged.outcome_note, bind_eq_ok] at h
        obtain ⟨_, -, h⟩ := h
        exact ih h
      · rw [if_neg hhidden] at h
        simp only [Logged.outcome_bind, Logged.outcome_ofExcept, Logged.outcome_pure, bind_eq_ok] at h
        obtain ⟨callable, hcallable, others, hothers, h⟩ := h
        cases h
        exact List.forall_mem_cons.mpr ⟨Callable.regular_ofDescription hcallable, ih hothers⟩

theorem Callables.regular_ofDescription {key : NamespaceKey}
    {constructors methods functions : List Description.Callable} {c : Callables}
    (h : (Callables.ofDescription key constructors methods functions).outcome = .ok c) : c.Regular := by
  simp only [Callables.ofDescription, Logged.outcome_bind, Logged.outcome_pure, bind_eq_ok] at h
  obtain ⟨built, hconstructors, builtMethods, hmethods, builtFunctions, hfunctions, h⟩ := h
  cases h
  intro kind
  cases kind with
  | constructor => exact Callable.regular_listOfDescription hconstructors
  | method => exact Callable.regular_listOfDescription hmethods
  | function => exact Callable.regular_listOfDescription hfunctions

section TypeSymbols

variable {key : NamespaceKey}

theorem Class.regular_ofDescription {d : Description.Class} {c : Class}
    (h : (Class.ofDescription key d).outcome = .ok c) : c.name.IsPascal ∧ c.callables.Regular := by
  simp only [Class.ofDescription, Logged.outcome_bind, Logged.outcome_ofExcept, Logged.outcome_pure,
    bind_eq_ok] at h
  obtain ⟨name, -, callables, hcallables, fields, -, signals, -, h⟩ := h
  cases h
  exact ⟨rfl, Callables.regular_ofDescription hcallables⟩

theorem Interface.regular_ofDescription {d : Description.Interface} {c : Interface}
    (h : (Interface.ofDescription key d).outcome = .ok c) : c.name.IsPascal ∧ c.callables.Regular := by
  simp only [Interface.ofDescription, Logged.outcome_bind, Logged.outcome_ofExcept, Logged.outcome_pure,
    bind_eq_ok] at h
  obtain ⟨name, -, callables, hcallables, signals, -, h⟩ := h
  cases h
  exact ⟨rfl, Callables.regular_ofDescription hcallables⟩

theorem Record.regular_ofDescription {d : Description.Record} {r : Record}
    (h : (Record.ofDescription key d).outcome = .ok r) : r.name.IsPascal ∧ r.callables.Regular := by
  simp only [Record.ofDescription, Logged.outcome_bind, Logged.outcome_ofExcept, Logged.outcome_pure,
    bind_eq_ok] at h
  obtain ⟨name, -, callables, hcallables, fields, -, h⟩ := h
  cases h
  exact ⟨rfl, Callables.regular_ofDescription hcallables⟩

theorem Union.regular_ofDescription {d : Description.Union} {u : Union}
    (h : (Union.ofDescription key d).outcome = .ok u) : u.name.IsPascal ∧ u.callables.Regular := by
  simp only [Union.ofDescription, Logged.outcome_bind, Logged.outcome_ofExcept, Logged.outcome_pure,
    bind_eq_ok] at h
  obtain ⟨name, -, callables, hcallables, fields, -, h⟩ := h
  cases h
  exact ⟨rfl, Callables.regular_ofDescription hcallables⟩

theorem Enumeration.regular_ofDescription {isBitfield : Bool} {d : Description.Enumeration}
    {declared : Enumeration} (h : (Enumeration.ofDescription key isBitfield d).outcome = .ok declared) :
    declared.name.IsPascal ∧ ∀ c ∈ declared.functions, c.parameters.Regular := by
  simp only [Enumeration.ofDescription, Logged.outcome_bind, Logged.outcome_ofExcept, Logged.outcome_pure,
    bind_eq_ok] at h
  obtain ⟨name, -, members, -, functions, hfunctions, h⟩ := h
  cases h
  exact ⟨rfl, Callable.regular_listOfDescription hfunctions⟩

end TypeSymbols

/-! ### Namespaces from descriptions -/

namespace Namespace

/-- All parameters of callables and callbacks are as descriptions make them. -/
structure Regular (ns : Namespace) : Prop where
  callables : ∀ kind holder, ∀ c ∈ ns.callablesOf kind holder, c.parameters.Regular
  callbacks : ∀ c ∈ ns.callbacks, c.parameters.Regular

variable {ns placed : Namespace} {record : Record}

theorem classes_attach (owner : LayoutOwner) (kind : LayoutKind) (record : Record) :
    (ns.attach owner kind record).classes.map (·.callables) = ns.classes.map (·.callables) := by
  unfold attach
  cases owner <;> dsimp only <;> split <;> first | rfl | exact map_modify _ _ fun _ => rfl

theorem interfaces_attach (owner : LayoutOwner) (kind : LayoutKind) (record : Record) :
    (ns.attach owner kind record).interfaces.map (·.callables) = ns.interfaces.map (·.callables) := by
  unfold attach
  cases owner <;> dsimp only <;> split <;> first | rfl | exact map_modify _ _ fun _ => rfl

/-- An attached record changes no callables but those of its slot. -/
theorem callablesOf_attach {owner : LayoutOwner} (howner : ns.HasOwner owner) (kind : LayoutKind)
    (record : Record) (member : CallableKind) (holder : Holder) :
    (ns.attach owner kind record).callablesOf member holder =
      if holder = .layout ⟨owner, kind⟩ then record.callables.ofKind member
      else ns.callablesOf member holder := by
  have hmembers : ∀ {α : Type} {l l' : List α} {callables : α → Callables} (i : Nat),
      l.map callables = l'.map callables → l[i]?.elim [] (fun a => (callables a).ofKind member) =
        l'[i]?.elim [] fun a => (callables a).ofKind member := by
    intro α l l' callables i hmap
    have hget := congrArg (·[i]?) hmap
    simp only [List.getElem?_map] at hget
    cases hl : l[i]? <;> cases hl' : l'[i]? <;> simp_all
  have hfixed : ∀ {α : Type} (f : Namespace → α),
      (∀ ns classes interfaces layoutSlots, f { ns with classes, interfaces, layoutSlots } = f ns) →
        f (ns.attach owner kind record) = f ns := by
    intro α f hf
    unfold attach
    cases owner <;> dsimp only <;> split <;> exact hf ns _ _ _
  cases holder with
  | layout slot =>
      rw [callablesOf, layoutAt?_attach howner, callablesOf]
      by_cases hslot : slot = ⟨owner, kind⟩
      · rw [if_pos hslot, if_pos (congrArg Holder.layout hslot)]
        rfl
      · rw [if_neg hslot, if_neg fun h => hslot (Holder.layout.inj h)]
  | classType i =>
      rw [if_neg Holder.noConfusion]
      exact hmembers i (classes_attach owner kind record)
  | interfaceType i =>
      rw [if_neg Holder.noConfusion]
      exact hmembers i (interfaces_attach owner kind record)
  | free | enumeration i | bitfield i | record i | union i =>
      rw [if_neg Holder.noConfusion]
      exact hfixed (fun ns => ns.callablesOf member _) fun _ _ _ _ => rfl

theorem mem_callablesOf_append {kind : CallableKind} {holder : Holder} {c : Callable}
    (hc : c ∈ ({ ns with records := ns.records ++ [record] } : Namespace).callablesOf kind holder) :
    c ∈ ns.callablesOf kind holder ∨ c ∈ record.callables.ofKind kind := by
  cases holder with
  | record i =>
      rw [callablesOf, List.getElem?_append] at hc
      split at hc
      · exact .inl hc
      · cases hget : [record][i - ns.records.length]? with
        | none =>
            rw [hget] at hc
            cases hc
        | some r =>
            rw [hget] at hc
            obtain rfl := List.mem_singleton.mp (List.mem_of_getElem? hget)
            exact .inr hc
  | _ => exact .inl hc

/-- Placing a record adds no callables but those of the record. -/
theorem Regular.place (hns : ns.Regular) (hrecord : record.callables.Regular) (h : ns.place record = .ok placed) :
    placed.Regular where
  callables kind holder c hc := by
    rcases place_cases h with ⟨-, -, rfl⟩ | ⟨slot, -, -, howner, rfl⟩
    · exact (mem_callablesOf_append hc).elim (hns.callables kind holder c) (hrecord kind c)
    · rw [callablesOf_attach howner] at hc
      split at hc
      · rw [(Keeps.kept_spec ns record).2.2] at hc
        exact hrecord kind c hc
      · exact hns.callables kind holder c hc
  callbacks c hc := by
    rw [apply_place Namespace.callbacks (fun _ _ _ _ _ => rfl) h] at hc
    exact hns.callbacks c hc

/-- What stands at a position of a list, if anything, is as all of the list is. -/
theorem forall_mem_elim {α β : Type} {l : List α} {f : α → List β} {P : β → Prop}
    (h : ∀ a ∈ l, ∀ b ∈ f a, P b) (i : Nat) : ∀ b ∈ l[i]?.elim [] f, P b := by
  cases hget : l[i]? with
  | none => exact fun _ hc => absurd hc List.not_mem_nil
  | some a => exact h a (List.mem_of_getElem? hget)

theorem regular_ofDescription {key : NamespaceKey} {d : Description.Namespace}
    (h : (Namespace.ofDescription key d).outcome = .ok ns) : ns.Regular := by
  simp only [Namespace.ofDescription, Logged.outcome_bind, Logged.outcome_ofExcept, Logged.outcome_forEach,
    bind_eq_ok, Logged.outcome_note, Logged.outcome_pure] at h
  obtain ⟨aliases, -, callbacks, hcallbacks, enumerations, henumerations, bitfields, hbitfields, interfaces,
    hinterfaces, records, hrecords, classes, hclasses, unions, hunions, functions, hfunctions, constants, -,
    attached, hattached, -, -, h⟩ := h
  cases h
  have hclass : ∀ c ∈ classes, c.layouts = {} :=
    forall_mem_of_mapM (fun _ _ h => (Class.ofDescription_spec h).2) hclasses
  have hinterface : ∀ c ∈ interfaces, c.layouts = {} :=
    forall_mem_of_mapM (fun _ _ h => (Interface.ofDescription_spec h).2) hinterfaces
  have hrecord := forall_mem_of_mapM (fun _ _ h => (Record.regular_ofDescription h).2) hrecords
  have hplace : ∀ record ∈ records, ∀ (ns placed : Namespace), ns.Regular → ns.place record = .ok placed →
      placed.Regular := fun record hmem _ _ hns h => hns.place (hrecord record hmem) h
  refine foldlM_induction hplace ⟨fun kind holder => ?_, ?_⟩ hattached
  · cases holder with
    | free =>
        rw [callablesOf]
        split
        · exact Callable.regular_listOfDescription hfunctions
        · exact fun _ hc => absurd hc List.not_mem_nil
    | enumeration i =>
        rw [callablesOf]
        split
        · exact forall_mem_elim (forall_mem_of_mapM (fun _ _ h => (Enumeration.regular_ofDescription h).2) henumerations) i
        · exact fun _ hc => absurd hc List.not_mem_nil
    | bitfield i =>
        rw [callablesOf]
        split
        · exact forall_mem_elim (forall_mem_of_mapM (fun _ _ h => (Enumeration.regular_ofDescription h).2) hbitfields) i
        · exact fun _ hc => absurd hc List.not_mem_nil
    | classType i =>
        exact forall_mem_elim (forall_mem_of_mapM (fun _ _ h => (Class.regular_ofDescription h).2 kind) hclasses) i
    | interfaceType i =>
        exact forall_mem_elim (forall_mem_of_mapM (fun _ _ h => (Interface.regular_ofDescription h).2 kind) hinterfaces) i
    | union i =>
        exact forall_mem_elim (forall_mem_of_mapM (fun _ _ h => (Union.regular_ofDescription h).2 kind) hunions) i
    | record i => exact fun _ hc => absurd hc List.not_mem_nil
    | layout slot =>
        rw [callablesOf, layoutAt?_eq_none hclass hinterface]
        exact fun _ hc => absurd hc List.not_mem_nil
  · exact forall_mem_of_mapM (fun _ _ h => (Callback.regular_ofDescription h).2) hcallbacks

end Namespace

/-- All parameters of a graph are as descriptions make them. -/
theorem Obtained.regular {g : Graph} (hg : Obtained g) {id : RepositoryId} {r : Repository}
    (hr : g.repository? id = some r) : r.content.Regular := by
  obtain ⟨key, d, hcontent⟩ := hg.exists_content hr
  exact Namespace.regular_ofDescription hcontent

namespace Emitter

/-- A type symbol itself has no signature. -/
theorem signature?_of_typeWork? {e : Emitter} {ns : Namespace} {holder : Holder} {identifier : String} {work : Work}
    (h : e.typeWork? ns holder = some (identifier, work)) : work.signature? = none := by
  cases holder with
  | enumeration i | bitfield i | classType i | record i | union i | layout slot =>
      obtain ⟨declared, -, hwork⟩ := Option.map_eq_some_iff.mp h
      obtain ⟨-, rfl⟩ := Prod.mk.inj hwork
      rfl
  | interfaceType i | free => cases h

/-- The parameters of an item are as descriptions make them. -/
theorem regular_of_mem_items {e : Emitter} {ns : Namespace} (hns : ns.Regular) {item : WorkItem}
    (hitem : item ∈ e.items ns) {list : ParameterList} {throws : Bool}
    (hsignature : item.work.signature? = some (list, throws)) : list.Regular := by
  have hwork := (((e.covers_items ns).mem_iff item).mp hitem).2
  obtain ⟨identifier, place, work⟩ := item
  dsimp only at hwork hsignature
  rcases place with holder | ⟨holder, kind, i⟩ | ⟨holder, i⟩ | i | i | i
  · rw [signature?_of_typeWork? hwork] at hsignature
    cases hsignature
  · obtain ⟨c, hc, hwork⟩ := Option.map_eq_some_iff.mp hwork
    obtain ⟨-, rfl⟩ := Prod.mk.inj hwork
    cases hsignature
    exact hns.callables kind holder c (List.mem_of_getElem? hc)
  · obtain ⟨owner, -, hwork⟩ := Option.bind_eq_some_iff.mp hwork
    obtain ⟨s, -, hwork⟩ := Option.map_eq_some_iff.mp hwork
    obtain ⟨-, rfl⟩ := Prod.mk.inj hwork
    cases hsignature
  · obtain ⟨c, hc, hwork⟩ := Option.map_eq_some_iff.mp hwork
    obtain ⟨-, rfl⟩ := Prod.mk.inj hwork
    cases hsignature
    exact hns.callbacks c (List.mem_of_getElem? hc)
  · obtain ⟨c, -, hwork⟩ := Option.map_eq_some_iff.mp hwork
    obtain ⟨-, rfl⟩ := Prod.mk.inj hwork
    cases hsignature
  · cases hwork

end Emitter

namespace Sample

/-- A parameter with an address, which may name a position for its user data. -/
def address (name : String) (closure : Option Nat := none) : Description.Parameter where
  name := some name
  transferOwnership := some "none"
  type := some { name := some "gpointer", ctype := some "gpointer" }
  closure := closure

/-- A function whose second and third parameter name one for their user data and whose last one names itself,
and a function with a parameter `error`; both throw. -/
def idleDescription : Description where
  namespaceInfo := {
    name := some "Idle", version := some "1.0"
    functions := [
      { name := some "add", cIdentifier := some "idle_add", throws := true
        parameters := [address "data", address "callback" (some 0), address "notify" (some 3),
          address "notify_data", address "object" (some 4)] },
      { name := some "report", cIdentifier := some "idle_report", throws := true
        parameters := [address "error"] }] }

def idle : Graph := ({} : Graph).after [.register idleDescription, .link]

def addressed (name : String) (closure : Option Nat := none) : Parameter :=
  ⟨.parameter name, .scalar ⟨some "gpointer", some (.ofString "gpointer")⟩ .parameter, .into, .nothing, false, false,
    closure⟩

def add : Callable where
  name := .pascal "add"
  cIdentifier := "idle_add"
  kind := .function
  returnValue := .nothing
  parameters := {
    declared := [addressed "data", addressed "callback" (some 0), addressed "notify" (some 3),
      addressed "notify_data", addressed "object" (some 4)] }
  throws := true

def report : Callable where
  name := .pascal "report"
  cIdentifier := "idle_report"
  kind := .function
  returnValue := .nothing
  parameters := { declared := [addressed "error"] }
  throws := true

def idleRepository : Repository where
  content := { key := ⟨"Idle", "1.0"⟩, functions := [add, report] }
  includes := []

theorem idle_eq : idle = {
    repositories := [idleRepository], positions := [(⟨"Idle", "1.0"⟩, ⟨0⟩)], buildOrder := [⟨0⟩] } := by
  cbv

theorem obtained_idle : Obtained idle := Obtained.empty.after _

theorem repository?_idle : idle.repository? ⟨0⟩ = some idleRepository := by
  rw [idle_eq]
  rfl

def addItem : WorkItem := ⟨"Idle.add", .callable .free .function 0, .callable none add⟩

def reportItem : WorkItem := ⟨"Idle.report", .callable .free .function 1, .callable none report⟩

theorem items_idle : (Emitter.mk idle ⟨0⟩).items idleRepository.content = [addItem, reportItem] := by
  rw [idle_eq]
  rfl

theorem exists_emitFrom_idle (m : Memo) {c : Callable} (hc : c = add ∨ c = report) (identifier : String)
    (place : Place) (owner : Option SymbolName) :
    ∃ f, (Emitter.mk idle ⟨0⟩).emitFrom m ⟨identifier, place, .callable owner c⟩ = .ok (.function f) := by
  rw [idle_eq]
  rcases hc with rfl | rfl
  · exact Emitter.exists_emitFrom_callable ⟨.of (.primitive .void), rfl⟩ ⟨_, rfl⟩ _ _ _ m
  · exact Emitter.exists_emitFrom_callable ⟨.of (.primitive .void), rfl⟩ ⟨_, rfl⟩ _ _ _ m

end Sample

end Interop
