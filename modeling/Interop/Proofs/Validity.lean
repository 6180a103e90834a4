import Mathlib.Tactic.MkIffOfInductiveProp
import Interop.Proofs.Build
import Interop.Proofs.Folding

/-! Valid descriptions. What each kind of declaration needs is stated here apart from the building, which
checks it declaration by declaration. A description gives a repository exactly if it is valid. Main
statement: `exists_ofDescription_iff`. -/

namespace Interop

/-! ### What a declaration needs -/

namespace Description

/-- A type is named by an introspection name or a native spelling. -/
def TypeUse.Valid (d : TypeUse) : Prop := d.name.isSome ∨ d.ctype.isSome

instance (d : TypeUse) : Decidable d.Valid := inferInstanceAs (Decidable (_ ∨ _))

/-- The elements of an array may be left open. -/
def ArrayUse.Valid (d : ArrayUse) : Prop := ∀ element ∈ d.element, element.Valid

instance (d : ArrayUse) : Decidable d.Valid :=
  inferInstanceAs (Decidable (∀ element ∈ d.element, element.Valid))

/-- A scalar type, or else an array. -/
def ValidType : Option TypeUse → Option ArrayUse → Prop
  | some type, _ => type.Valid
  | none, some array => array.Valid
  | none, none => False

instance : ∀ type array, Decidable (ValidType type array)
  | some type, _ => inferInstanceAs (Decidable type.Valid)
  | none, some array => inferInstanceAs (Decidable array.Valid)
  | none, none => inferInstanceAs (Decidable False)

def transfers : List String := ["none", "container", "full"]

def directions : List String := ["in", "out", "inout", "ref"]

@[mk_iff]
structure Parameter.Valid (d : Parameter) : Prop where
  name : d.name.isSome
  transfer : ∃ transfer ∈ d.transferOwnership, transfer ∈ transfers
  direction : ∀ direction ∈ d.direction, direction ∈ directions
  type : d.varargs = false → ValidType d.type d.array

instance (d : Parameter) : Decidable d.Valid := decidable_of_iff' _ (Parameter.valid_iff d)

/-- A return value without type and array stands for nothing. -/
@[mk_iff]
structure ReturnValue.Valid (d : ReturnValue) : Prop where
  transfer : ∀ transfer ∈ d.transferOwnership, transfer ∈ transfers
  type : d.type.isSome ∨ d.array.isSome → ValidType d.type d.array

instance (d : ReturnValue) : Decidable d.Valid := decidable_of_iff' _ (ReturnValue.valid_iff d)

@[mk_iff]
structure Callable.Valid (d : Callable) : Prop where
  name : d.name.isSome
  cIdentifier : d.cIdentifier.isSome
  returnValue : ∀ value ∈ d.returnValue, value.Valid
  receiver : ∀ p ∈ d.instanceParameter, p.Valid
  parameters : ∀ p ∈ d.parameters, p.Valid

instance (d : Callable) : Decidable d.Valid := decidable_of_iff' _ (Callable.valid_iff d)

/-- Callables that are marked as not introspectable are not looked at. -/
def ValidCallables (ds : List Callable) : Prop := ∀ d ∈ ds, d.introspectable ≠ some false → d.Valid

instance (ds : List Callable) : Decidable (ValidCallables ds) :=
  inferInstanceAs (Decidable (∀ d ∈ ds, d.introspectable ≠ some false → d.Valid))

/-- The callables of a type symbol. -/
@[mk_iff]
structure ValidMembers (constructors methods functions : List Callable) : Prop where
  constructors : ValidCallables constructors
  methods : ValidCallables methods
  functions : ValidCallables functions

instance (constructors methods functions : List Callable) :
    Decidable (ValidMembers constructors methods functions) :=
  decidable_of_iff' _ (validMembers_iff constructors methods functions)

/-- A field with an inline callback needs no type. -/
@[mk_iff]
structure Field.Valid (d : Field) : Prop where
  name : d.name.isSome
  type : d.callback = none → ValidType d.type d.array

instance (d : Field) : Decidable d.Valid := decidable_of_iff' _ (Field.valid_iff d)

@[mk_iff]
structure Signal.Valid (d : Signal) : Prop where
  name : d.name.isSome
  returnValue : ∀ value ∈ d.returnValue, value.Valid
  parameters : ∀ p ∈ d.parameters, p.Valid

instance (d : Signal) : Decidable d.Valid := decidable_of_iff' _ (Signal.valid_iff d)

@[mk_iff]
structure Callback.Valid (d : Callback) : Prop where
  name : d.name.isSome
  returnValue : ∀ value ∈ d.returnValue, value.Valid
  parameters : ∀ p ∈ d.parameters, p.Valid

instance (d : Callback) : Decidable d.Valid := decidable_of_iff' _ (Callback.valid_iff d)

@[mk_iff]
structure Alias.Valid (d : Alias) : Prop where
  name : d.name.isSome
  ctype : d.ctype.isSome
  target : ∃ target ∈ d.target, target.name.isSome

instance (d : Alias) : Decidable d.Valid := decidable_of_iff' _ (Alias.valid_iff d)

@[mk_iff]
structure Class.Valid (d : Class) : Prop where
  name : d.name.isSome
  callables : ValidMembers d.constructors d.methods d.functions
  fields : ∀ field ∈ d.fields, field.Valid
  signals : ∀ signal ∈ d.signals, signal.Valid

instance (d : Class) : Decidable d.Valid := decidable_of_iff' _ (Class.valid_iff d)

@[mk_iff]
structure Interface.Valid (d : Interface) : Prop where
  name : d.name.isSome
  callables : ValidMembers d.constructors d.methods d.functions
  signals : ∀ signal ∈ d.signals, signal.Valid

instance (d : Interface) : Decidable d.Valid := decidable_of_iff' _ (Interface.valid_iff d)

@[mk_iff]
structure Record.Valid (d : Record) : Prop where
  name : d.name.isSome
  callables : ValidMembers d.constructors d.methods d.functions
  fields : ∀ field ∈ d.fields, field.Valid

instance (d : Record) : Decidable d.Valid := decidable_of_iff' _ (Record.valid_iff d)

@[mk_iff]
structure Union.Valid (d : Union) : Prop where
  name : d.name.isSome
  callables : ValidMembers d.constructors d.methods d.functions
  fields : ∀ field ∈ d.fields, field.Valid

instance (d : Union) : Decidable d.Valid := decidable_of_iff' _ (Union.valid_iff d)

@[mk_iff]
structure Member.Valid (d : Member) : Prop where
  name : d.name.isSome
  cIdentifier : d.cIdentifier.isSome
  value : d.value.isSome

instance (d : Member) : Decidable d.Valid := decidable_of_iff' _ (Member.valid_iff d)

@[mk_iff]
structure Enumeration.Valid (d : Enumeration) : Prop where
  name : d.name.isSome
  members : ∀ member ∈ d.members, member.Valid
  functions : ValidCallables d.functions

instance (d : Enumeration) : Decidable d.Valid := decidable_of_iff' _ (Enumeration.valid_iff d)

@[mk_iff]
structure Constant.Valid (d : Constant) : Prop where
  name : d.name.isSome
  value : d.value.isSome
  type : ∃ type ∈ d.type, type.Valid

instance (d : Constant) : Decidable d.Valid := decidable_of_iff' _ (Constant.valid_iff d)

/-- A name, perhaps qualified with the name of the namespace, that is the name of a class or interface. -/
@[mk_iff]
structure Namespace.NamesOwner (d : Namespace) (owner : String) : Prop where
  qualifier : ∀ qualifier ∈ (splitQualified owner).1, d.name = some qualifier
  declared : (∃ c ∈ d.classes, c.name = some (splitQualified owner).2) ∨
    ∃ c ∈ d.interfaces, c.name = some (splitQualified owner).2

instance (d : Namespace) (owner : String) : Decidable (d.NamesOwner owner) :=
  decidable_of_iff' _ (d.namesOwner_iff owner)

@[mk_iff]
structure Namespace.Valid (d : Namespace) : Prop where
  aliases : ∀ a ∈ d.aliases, a.Valid
  callbacks : ∀ c ∈ d.callbacks, c.Valid
  enumerations : ∀ e ∈ d.enumerations, e.Valid
  bitfields : ∀ e ∈ d.bitfields, e.Valid
  interfaces : ∀ c ∈ d.interfaces, c.Valid
  records : ∀ r ∈ d.records, r.Valid
  classes : ∀ c ∈ d.classes, c.Valid
  unions : ∀ u ∈ d.unions, u.Valid
  functions : ValidCallables d.functions
  constants : ∀ c ∈ d.constants, c.Valid
  /-- A layout belongs to a class or interface of the namespace. -/
  owners : ∀ r ∈ d.records, ∀ owner ∈ r.typeStructFor, d.NamesOwner owner

instance (d : Namespace) : Decidable d.Valid := decidable_of_iff' _ d.valid_iff

end Description

/-- Namespace and includes have names and versions, and the declarations have what they need. -/
@[mk_iff]
structure Description.Valid (d : Description) : Prop where
  named : d.Named
  content : d.namespaceInfo.Valid

instance (d : Description) : Decidable d.Named :=
  decidable_of_iff (d.namespaceInfo.name.isSome ∧ d.namespaceInfo.version.isSome ∧
      ∀ i ∈ d.includes, i.name.isSome ∧ i.version.isSome)
    ⟨fun ⟨hname, hversion, hincludes⟩ => ⟨hname, hversion, hincludes⟩,
      fun ⟨hname, hversion, hincludes⟩ => ⟨hname, hversion, hincludes⟩⟩

instance (d : Description) : Decidable d.Valid := decidable_of_iff' _ d.valid_iff

/-! ### Checks one after another -/

/-- A computation that gives a result. -/
def Succeeds {ε α : Type} (x : Except ε α) : Prop := ∃ a, x = .ok a

section Succeeds

variable {ε α β : Type}

theorem Succeeds.ok (a : α) : Succeeds (.ok a : Except ε α) := ⟨a, rfl⟩

theorem not_succeeds_error (e : ε) : ¬Succeeds (.error e : Except ε α) := by
  rintro ⟨a, ⟨⟩⟩

/-- Where the rest succeeds under a condition that does not depend on the result, the parts are checked
apart. -/
theorem succeeds_bind {x : Except ε α} {next : α → Except ε β} {P Q : Prop} (hx : Succeeds x ↔ P)
    (hnext : ∀ a, x = .ok a → (Succeeds (next a) ↔ Q)) : Succeeds (x >>= next) ↔ P ∧ Q := by
  rw [← hx]
  constructor
  · rintro ⟨b, hb⟩
    obtain ⟨a, ha, hb⟩ := bind_eq_ok.mp hb
    exact ⟨⟨a, ha⟩, (hnext a ha).mp ⟨b, hb⟩⟩
  · rintro ⟨⟨a, ha⟩, hQ⟩
    obtain ⟨b, hb⟩ := (hnext a ha).mpr hQ
    exact ⟨b, bind_eq_ok.mpr ⟨a, ha, hb⟩⟩

/-- A last step that cannot fail. -/
theorem succeeds_bind_ok {x : Except ε α} {f : α → β} {P : Prop} (hx : Succeeds x ↔ P) :
    Succeeds (x >>= fun a => .ok (f a)) ↔ P :=
  (succeeds_bind hx fun a _ => iff_true_intro (.ok (f a))).trans (and_iff_left trivial)

theorem succeeds_mapM {items : List α} {f : α → Except ε β} {P : α → Prop} (h : ∀ a, Succeeds (f a) ↔ P a) :
    Succeeds (items.mapM f) ↔ ∀ a ∈ items, P a :=
  exists_mapM_eq_ok.trans (forall₂_congr fun a _ => h a)

theorem succeeds_forEach {items : List α} {f : α → Logged ε β} {P : α → Prop}
    (h : ∀ a, Succeeds (f a).outcome ↔ P a) :
    Succeeds (Logged.forEach items f).outcome ↔ ∀ a ∈ items, P a := by
  rw [Logged.outcome_forEach]
  exact succeeds_mapM h

theorem succeeds_option_mapM {item : Option α} {f : α → Except ε β} {P : α → Prop}
    (h : ∀ a, Succeeds (f a) ↔ P a) : Succeeds (item.mapM f) ↔ ∀ a ∈ item, P a := by
  cases item with
  | none => exact iff_of_true (.ok none) fun _ h => by cases h
  | some a =>
      simp only [Option.mem_some_iff, forall_eq']
      exact succeeds_bind_ok (h a)

theorem succeeds_require {value : Option String} {declaration field : String} :
    Succeeds (require value declaration field) ↔ value.isSome := by
  cases value with
  | none => exact iff_of_false (not_succeeds_error _) Bool.false_ne_true
  | some value => exact iff_of_true (.ok value) rfl

end Succeeds

/-! ### Types -/

theorem TypeSpec.succeeds_checked {d : Description.TypeUse} {owner : String} :
    Succeeds (TypeSpec.checked d owner) ↔ d.Valid := by
  rw [TypeSpec.checked, Description.TypeUse.Valid]
  cases hname : d.name <;> cases hctype : d.ctype
  · exact iff_of_false (not_succeeds_error _) (by simp)
  all_goals exact iff_of_true (.ok _) (by simp)

theorem ArrayInfo.succeeds_ofDescription {d : Description.ArrayUse} {owner : String} :
    Succeeds (ArrayInfo.ofDescription d owner) ↔ d.Valid :=
  succeeds_bind_ok (succeeds_option_mapM fun _ => TypeSpec.succeeds_checked)

theorem TypeReference.succeeds_ofDescription {type : Option Description.TypeUse}
    {array : Option Description.ArrayUse} {context : TypeContext} {owner : String} :
    Succeeds (TypeReference.ofDescription type array context owner) ↔ Description.ValidType type array := by
  cases type with
  | some type => exact succeeds_bind_ok TypeSpec.succeeds_checked
  | none =>
      cases array with
      | some array => exact succeeds_bind_ok ArrayInfo.succeeds_ofDescription
      | none => exact iff_of_false (not_succeeds_error _) id

theorem Transfer.isSome_ofAttribute? {value : String} :
    (Transfer.ofAttribute? value).isSome ↔ value ∈ Description.transfers := by
  simp only [Description.transfers, List.mem_cons, List.not_mem_nil, or_false]
  unfold Transfer.ofAttribute?
  split <;> simp_all

theorem Transfer.succeeds_checked {value declaration : String} :
    Succeeds (Transfer.checked value declaration) ↔ value ∈ Description.transfers := by
  rw [Transfer.checked, ← Transfer.isSome_ofAttribute?]
  cases Transfer.ofAttribute? value with
  | none => exact iff_of_false (not_succeeds_error _) Bool.false_ne_true
  | some transfer => exact iff_of_true (.ok transfer) rfl

theorem Direction.isSome_ofAttribute? {value : Option String} :
    (Direction.ofAttribute? value).isSome ↔ ∀ direction ∈ value, direction ∈ Description.directions := by
  simp only [Description.directions, List.mem_cons, List.not_mem_nil, or_false]
  unfold Direction.ofAttribute?
  split <;> simp_all

/-! ### Callables -/

theorem Parameter.succeeds_ofDescription {owner : String} {d : Description.Parameter} :
    Succeeds (Parameter.ofDescription owner d) ↔ d.Valid := by
  rw [Description.Parameter.valid_iff, ← Direction.isSome_ofAttribute?, Parameter.ofDescription]
  refine succeeds_bind succeeds_require fun name _ => ?_
  dsimp only
  cases d.transferOwnership with
  | none => exact iff_of_false (not_succeeds_error _) fun ⟨⟨_, h, _⟩, _⟩ => by cases h
  | some value =>
      simp only [Option.mem_some_iff, exists_eq_left']
      refine (succeeds_bind (iff_true_intro (.ok value)) fun given hgiven => ?_).trans (and_iff_right trivial)
      obtain rfl : value = given := Except.ok.inj hgiven
      refine succeeds_bind Transfer.succeeds_checked fun transfer _ => ?_
      cases Direction.ofAttribute? d.direction with
      | none => exact iff_of_false (not_succeeds_error _) fun ⟨h, _⟩ => by cases h
      | some direction =>
          rw [Option.isSome_some, iff_true_intro rfl, true_and]
          cases d.varargs with
          | true => exact iff_of_true (.ok _) fun h => by cases h
          | false =>
              exact (succeeds_bind_ok TypeReference.succeeds_ofDescription).trans (imp_iff_right rfl).symm

theorem ParameterList.succeeds_ofDescription {owner : String} {receiver : Option Description.Parameter}
    {parameters : List Description.Parameter} :
    Succeeds (ParameterList.ofDescription owner receiver parameters) ↔
      (∀ p ∈ receiver, p.Valid) ∧ ∀ p ∈ parameters, p.Valid :=
  succeeds_bind (succeeds_option_mapM fun _ => Parameter.succeeds_ofDescription) fun _ _ =>
    succeeds_bind_ok (succeeds_mapM fun _ => Parameter.succeeds_ofDescription)

theorem ParameterList.succeeds_ofDescription_none {owner : String} {parameters : List Description.Parameter} :
    Succeeds (ParameterList.ofDescription owner none parameters) ↔ ∀ p ∈ parameters, p.Valid :=
  ParameterList.succeeds_ofDescription.trans (and_iff_right fun _ h => nomatch h)

theorem ReturnValue.succeeds_ofDescription {owner : String} {value : Option Description.ReturnValue} :
    Succeeds (ReturnValue.ofDescription owner value) ↔ ∀ d ∈ value, d.Valid := by
  cases value with
  | none => exact iff_of_true (.ok _) fun _ h => by cases h
  | some d =>
      have htype : ∀ transfer : Transfer, Succeeds (do
          let type ←
            if d.type.isNone && d.array.isNone then .ok ReturnValue.nothing.type
            else TypeReference.ofDescription d.type d.array .returnValue s!"return value of {owner}"
          return (⟨type, transfer, d.nullable⟩ : ReturnValue)) ↔
            (d.type.isSome ∨ d.array.isSome → Description.ValidType d.type d.array) := by
        intro transfer
        by_cases hnone : d.type.isNone && d.array.isNone
        · rw [if_pos hnone]
          refine iff_of_true (.ok _) fun hsome => ?_
          simp_all
        · rw [if_neg hnone]
          refine (succeeds_bind_ok TypeReference.succeeds_ofDescription).trans (imp_iff_right ?_).symm
          cases htype : d.type <;> cases harray : d.array <;> simp_all
      simp only [Option.mem_some_iff, forall_eq']
      rw [Description.ReturnValue.valid_iff, ReturnValue.ofDescription]
      dsimp only
      cases d.transferOwnership with
      | none => exact (htype .nothing).trans (and_iff_right fun _ h => nomatch h).symm
      | some value =>
          simp only [Option.mem_some_iff, forall_eq']
          exact succeeds_bind Transfer.succeeds_checked fun transfer _ => htype transfer

theorem Callable.succeeds_ofDescription {key : NamespaceKey} {kind : CallableKind}
    {d : Description.Callable} : Succeeds (Callable.ofDescription key kind d) ↔ d.Valid := by
  rw [Description.Callable.valid_iff]
  exact succeeds_bind succeeds_require fun _ _ => succeeds_bind succeeds_require fun _ _ =>
    succeeds_bind ReturnValue.succeeds_ofDescription fun _ _ =>
      succeeds_bind_ok ParameterList.succeeds_ofDescription

theorem Callable.succeeds_listOfDescription {key : NamespaceKey} {kind : CallableKind}
    {ds : List Description.Callable} :
    Succeeds (Callable.listOfDescription key kind ds).outcome ↔ Description.ValidCallables ds := by
  induction ds with
  | nil => exact iff_of_true (.ok []) fun _ h => absurd h List.not_mem_nil
  | cons d ds ih =>
      rw [Description.ValidCallables, List.forall_mem_cons, Callable.listOfDescription]
      by_cases hhidden : d.introspectable = some false
      · rw [if_pos (by rw [hhidden]; rfl), Logged.outcome_bind, Logged.outcome_note]
        exact ih.trans (and_iff_right fun h => absurd hhidden h).symm
      · rw [if_neg (by simpa using hhidden)]
        simp only [Logged.outcome_bind, Logged.outcome_ofExcept, Logged.outcome_pure]
        exact succeeds_bind (Callable.succeeds_ofDescription.trans (imp_iff_right hhidden).symm) fun _ _ =>
          succeeds_bind_ok ih

theorem Callables.succeeds_ofDescription {key : NamespaceKey}
    {constructors methods functions : List Description.Callable} :
    Succeeds (Callables.ofDescription key constructors methods functions).outcome ↔
      Description.ValidMembers constructors methods functions := by
  rw [Description.validMembers_iff]
  simp only [Callables.ofDescription, Logged.outcome_bind, Logged.outcome_pure]
  exact succeeds_bind Callable.succeeds_listOfDescription fun _ _ =>
    succeeds_bind Callable.succeeds_listOfDescription fun _ _ =>
      succeeds_bind_ok Callable.succeeds_listOfDescription

theorem Callback.succeeds_ofDescription {key : NamespaceKey} {d : Description.Callback} :
    Succeeds (Callback.ofDescription key d) ↔ d.Valid := by
  rw [Description.Callback.valid_iff]
  exact succeeds_bind succeeds_require fun _ _ => succeeds_bind ReturnValue.succeeds_ofDescription fun _ _ =>
    succeeds_bind_ok ParameterList.succeeds_ofDescription_none

/-! ### Type symbols -/

theorem Field.succeeds_ofDescription {key : NamespaceKey} {owner : String} {d : Description.Field} :
    Succeeds (Field.ofDescription key owner d) ↔ d.Valid := by
  rw [Description.Field.valid_iff]
  refine succeeds_bind succeeds_require fun name _ => ?_
  cases d.callback with
  | some callback => exact iff_of_true (.ok _) fun h => by cases h
  | none => exact (succeeds_bind_ok TypeReference.succeeds_ofDescription).trans (imp_iff_right rfl).symm

theorem Signal.succeeds_ofDescription {key : NamespaceKey} {owner : String} {d : Description.Signal} :
    Succeeds (Signal.ofDescription key owner d) ↔ d.Valid := by
  rw [Description.Signal.valid_iff]
  exact succeeds_bind succeeds_require fun _ _ => succeeds_bind ReturnValue.succeeds_ofDescription fun _ _ =>
    succeeds_bind_ok ParameterList.succeeds_ofDescription_none

section TypeSymbols

variable {key : NamespaceKey}

theorem Class.succeeds_ofDescription {d : Description.Class} :
    Succeeds (Class.ofDescription key d).outcome ↔ d.Valid := by
  rw [Description.Class.valid_iff]
  simp only [Class.ofDescription, Logged.outcome_bind, Logged.outcome_ofExcept, Logged.outcome_pure]
  exact succeeds_bind succeeds_require fun _ _ => succeeds_bind Callables.succeeds_ofDescription fun _ _ =>
    succeeds_bind (succeeds_mapM fun _ => Field.succeeds_ofDescription) fun _ _ =>
      succeeds_bind_ok (succeeds_mapM fun _ => Signal.succeeds_ofDescription)

theorem Interface.succeeds_ofDescription {d : Description.Interface} :
    Succeeds (Interface.ofDescription key d).outcome ↔ d.Valid := by
  rw [Description.Interface.valid_iff]
  simp only [Interface.ofDescription, Logged.outcome_bind, Logged.outcome_ofExcept, Logged.outcome_pure]
  exact succeeds_bind succeeds_require fun _ _ => succeeds_bind Callables.succeeds_ofDescription fun _ _ =>
    succeeds_bind_ok (succeeds_mapM fun _ => Signal.succeeds_ofDescription)

theorem Record.succeeds_ofDescription {d : Description.Record} :
    Succeeds (Record.ofDescription key d).outcome ↔ d.Valid := by
  rw [Description.Record.valid_iff]
  simp only [Record.ofDescription, Logged.outcome_bind, Logged.outcome_ofExcept, Logged.outcome_pure]
  exact succeeds_bind succeeds_require fun _ _ => succeeds_bind Callables.succeeds_ofDescription fun _ _ =>
    succeeds_bind_ok (succeeds_mapM fun _ => Field.succeeds_ofDescription)

theorem Union.succeeds_ofDescription {d : Description.Union} :
    Succeeds (Union.ofDescription key d).outcome ↔ d.Valid := by
  rw [Description.Union.valid_iff]
  simp only [Union.ofDescription, Logged.outcome_bind, Logged.outcome_ofExcept, Logged.outcome_pure]
  exact succeeds_bind succeeds_require fun _ _ => succeeds_bind Callables.succeeds_ofDescription fun _ _ =>
    succeeds_bind_ok (succeeds_mapM fun _ => Field.succeeds_ofDescription)

theorem Member.succeeds_ofDescription {owner : String} {d : Description.Member} :
    Succeeds (Member.ofDescription owner d) ↔ d.Valid := by
  rw [Description.Member.valid_iff]
  exact succeeds_bind succeeds_require fun _ _ => succeeds_bind succeeds_require fun _ _ =>
    succeeds_bind_ok succeeds_require

theorem Enumeration.succeeds_ofDescription {isBitfield : Bool} {d : Description.Enumeration} :
    Succeeds (Enumeration.ofDescription key isBitfield d).outcome ↔ d.Valid := by
  rw [Description.Enumeration.valid_iff]
  simp only [Enumeration.ofDescription, Logged.outcome_bind, Logged.outcome_ofExcept, Logged.outcome_pure]
  exact succeeds_bind succeeds_require fun _ _ =>
    succeeds_bind (succeeds_mapM fun _ => Member.succeeds_ofDescription) fun _ _ =>
      succeeds_bind_ok Callable.succeeds_listOfDescription

theorem Alias.succeeds_ofDescription {d : Description.Alias} :
    Succeeds (Alias.ofDescription key d) ↔ d.Valid := by
  rw [Description.Alias.valid_iff]
  refine succeeds_bind succeeds_require fun _ _ => succeeds_bind succeeds_require fun _ _ => ?_
  cases d.target with
  | none => exact iff_of_false (not_succeeds_error _) fun ⟨_, h, _⟩ => by cases h
  | some target =>
      simp only [Option.mem_some_iff, exists_eq_left']
      exact succeeds_bind_ok succeeds_require

theorem Constant.succeeds_ofDescription {d : Description.Constant} :
    Succeeds (Constant.ofDescription key d) ↔ d.Valid := by
  rw [Description.Constant.valid_iff]
  refine succeeds_bind succeeds_require fun _ _ => succeeds_bind succeeds_require fun _ _ => ?_
  cases d.type with
  | none => exact iff_of_false (not_succeeds_error _) fun ⟨_, h, _⟩ => by cases h
  | some type =>
      simp only [Option.mem_some_iff, exists_eq_left']
      exact succeeds_bind_ok TypeSpec.succeeds_checked

end TypeSymbols

/-! ### Namespaces -/

section Namespaces

variable {d : Description.Namespace} {ns : Namespace} (hname : d.name = some ns.key.name)
  (hclasses : List.Forall₂ (fun described c => (Class.ofDescription ns.key described).outcome = .ok c)
    d.classes ns.classes)
  (hinterfaces : List.Forall₂ (fun described c => (Interface.ofDescription ns.key described).outcome = .ok c)
    d.interfaces ns.interfaces)

include hname hclasses hinterfaces

/-- An owner is found exactly if the description names it. -/
theorem Namespace.exists_ownerOf_iff_namesOwner {record : Record} {owner : String} :
    (∃ found, ns.ownerOf record owner = .ok found) ↔ d.NamesOwner owner := by
  have hclass : (∃ c ∈ d.classes, c.name = some (splitQualified owner).2) ↔
      ∃ c ∈ ns.classes, c.name.native = (splitQualified owner).2 :=
    exists_mem_congr hclasses fun described c hbuilt => by
      rw [(Class.ofDescription_spec hbuilt).1, Option.some.injEq]
  have hinterface : (∃ c ∈ d.interfaces, c.name = some (splitQualified owner).2) ↔
      ∃ c ∈ ns.interfaces, c.name.native = (splitQualified owner).2 :=
    exists_mem_congr hinterfaces fun described c hbuilt => by
      rw [(Interface.ofDescription_spec hbuilt).1, Option.some.injEq]
  rw [exists_ownerOf_iff, exists_layoutOwner?_iff, Description.Namespace.namesOwner_iff, hclass, hinterface,
    hname]
  simp only [Option.some.injEq, eq_comm]

/-- The layouts of a namespace find their owners exactly if the description names them. -/
theorem Namespace.succeeds_attachLayouts
    (hrecords : List.Forall₂ (fun described r => (Record.ofDescription ns.key described).outcome = .ok r)
      d.records ns.records) :
    Succeeds ns.attachLayouts ↔ ∀ r ∈ d.records, ∀ owner ∈ r.typeStructFor, d.NamesOwner owner := by
  have howner : ∀ (record : Record) (owner : String), d.NamesOwner owner ↔
      ∃ found, ({ ns with records := [] } : Namespace).ownerOf record owner = .ok found := fun _ _ =>
    (Namespace.exists_ownerOf_iff_namesOwner hname hclasses hinterfaces).symm
  refine exists_foldlM_place_iff.trans (forall_mem_congr hrecords fun described record hbuilt => ?_).symm
  rw [← (Record.ofDescription_spec hbuilt).2]
  exact forall₂_congr fun owner _ => howner record owner

end Namespaces

theorem Namespace.succeeds_ofDescription {key : NamespaceKey} {d : Description.Namespace}
    (hname : d.name = some key.name) : Succeeds (Namespace.ofDescription key d).outcome ↔ d.Valid := by
  rw [Description.Namespace.valid_iff]
  simp only [Namespace.ofDescription, Logged.outcome_bind, Logged.outcome_ofExcept, Logged.outcome_pure,
    Logged.outcome_note]
  refine succeeds_bind (succeeds_mapM fun _ => Alias.succeeds_ofDescription) fun aliases _ =>
    succeeds_bind (succeeds_mapM fun _ => Callback.succeeds_ofDescription) fun callbacks _ =>
    succeeds_bind (succeeds_forEach fun _ => Enumeration.succeeds_ofDescription) fun enumerations _ =>
    succeeds_bind (succeeds_forEach fun _ => Enumeration.succeeds_ofDescription) fun bitfields _ =>
    succeeds_bind (succeeds_forEach fun _ => Interface.succeeds_ofDescription) fun interfaces hinterfaces =>
    succeeds_bind (succeeds_forEach fun _ => Record.succeeds_ofDescription) fun records hrecords =>
    succeeds_bind (succeeds_forEach fun _ => Class.succeeds_ofDescription) fun classes hclasses =>
    succeeds_bind (succeeds_forEach fun _ => Union.succeeds_ofDescription) fun unions _ =>
    succeeds_bind Callable.succeeds_listOfDescription fun functions _ =>
    succeeds_bind (succeeds_mapM fun _ => Constant.succeeds_ofDescription) fun constants _ => ?_
  rw [Logged.outcome_forEach, mapM_eq_ok] at hinterfaces hrecords hclasses
  exact succeeds_bind_ok (Namespace.succeeds_attachLayouts hname hclasses hinterfaces hrecords)

/-- A description gives a repository exactly if it is valid: the namespace and its includes have names and
versions, every declaration has what it needs down to the types of parameters and fields, and every layout
belongs to a class or interface of the namespace. -/
theorem exists_ofDescription_iff (d : Description) :
    (∃ r, (Repository.ofDescription d).outcome = .ok r) ↔ d.Valid := by
  constructor
  · rintro ⟨r, h⟩
    obtain ⟨entry, content, hentry, hcontent, -⟩ := Repository.ofDescription_eq_ok.mp h
    obtain ⟨hnamed, rfl⟩ := Repository.entryOfDescription_eq_ok.mp hentry
    exact ⟨hnamed, (Namespace.succeeds_ofDescription hnamed.name_eq).mp ⟨content, hcontent⟩⟩
  · rintro ⟨hnamed, hvalid⟩
    obtain ⟨content, hcontent⟩ := (Namespace.succeeds_ofDescription hnamed.name_eq).mpr hvalid
    exact ⟨_, Repository.ofDescription_eq_ok.mpr
      ⟨d.entry, content, Repository.entryOfDescription_eq_ok.mpr ⟨hnamed, rfl⟩, hcontent, rfl⟩⟩

example : (Sample.gtk Sample.widgetRecords).Valid := by decide +kernel

-- the owner is not declared
example : ¬(Sample.gtk [Sample.typeRecord "ButtonClass" (some "Gtk.Button")]).Valid := by decide +kernel

end Interop
