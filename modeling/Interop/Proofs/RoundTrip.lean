import Interop.Description.Decode
import Interop.Description.Dump
import Interop.Proofs.Traversal
import Mathlib.Data.List.Nodup

/-! Descriptions written and read again. Every member of a description is written under the name under which it
is read, so that a description is restored from what it is written as, if its numbers have 64 bits. Main
statement: `Description.restores`. -/

namespace Interop

namespace Datum

/-- Every number is a natural number of 64 bits. -/
inductive InWords : Datum → Prop
  | null : InWords .null
  | boolean (b : Bool) : InWords (.boolean b)
  | integer (n : Int) (h : 0 ≤ n ∧ n < wordLimit) : InWords (.integer n)
  | text (s : String) : InWords (.text s)
  | list {items : List Datum} (h : ∀ d ∈ items, InWords d) : InWords (.list items)
  | table {members : List (String × Datum)} (h : ∀ member ∈ members, InWords member.2) :
    InWords (.table members)
  | foreign : InWords .foreign

variable {α : Type} {read : Datum → Option α} {write : α → Datum}

/-- A table with the members of a structure gives them. -/
theorem structure?_table {format : DataFormat} {names : List String} {members : List (String × Datum)}
    (hnames : members.map (·.1) = names) (hnodup : names.Nodup) :
    structure? format names (.table members) = some fun name => members.lookup name := by
  subst hnames
  refine if_pos (List.all_eq_true.mpr fun name _ => decide_eq_true ?_)
  have hcount := List.nodup_iff_count_le_one.mp hnodup name
  rwa [List.count_eq_length_filter, List.filter_map, List.length_map] at hcount

theorem optional?_of_ne_null {d : Datum} (h : d ≠ .null) : optional? read (some d) = (read d).map some := by
  cases d with
  | null => exact absurd rfl h
  | _ => rfl

/-- Values are read from what they are written as, which is not null. -/
def Restores (read : Datum → Option α) (write : α → Datum) : Prop :=
  ∀ a, (write a).InWords → write a ≠ .null ∧ read (write a) = some a

namespace Restores

theorem text : Restores text? .text := fun _ _ => ⟨nofun, rfl⟩

theorem natural : Restores natural? .natural := by
  rintro n (_ | _ | ⟨_, h⟩ | _ | _ | _)
  refine ⟨nofun, ?_⟩
  rw [Datum.natural, natural?, if_pos h, Int.toNat_natCast]

/-- A value that may be absent is restored. -/
theorem optional (h : Restores read write) {x : Option α} (hx : (Datum.optional write x).InWords) :
    optional? read (some (.optional write x)) = some x := by
  cases x with
  | none => rfl
  | some a =>
      obtain ⟨hnull, hread⟩ := h a hx
      show optional? read (some (write a)) = some (some a)
      rw [optional?_of_ne_null hnull, hread]
      rfl

theorem list (h : Restores read write) {xs : List α} (hxs : (Datum.list (xs.map write)).InWords) :
    list? read (some (.list (xs.map write))) = some xs := by
  cases hxs with
  | list hxs =>
  have hread : ∀ a ∈ xs, read (write a) = some a :=
    fun a ha => (h a (hxs _ (List.mem_map_of_mem ha))).2
  rw [list?, List.mapM_map]
  induction xs with
  | nil => rfl
  | cons a xs ih =>
      obtain ⟨ha, hread⟩ := List.forall_mem_cons.mp hread
      rw [List.mapM_cons, Function.comp_apply, ha, ih (List.forall_mem_cons.mp hxs).2 hread]
      rfl

/-- A structure is restored if its members are, each from the table of all. -/
theorem ofMembers {format : DataFormat} {names : List String} {members : α → List (String × Datum)}
    {build : (String → Option Datum) → Option α} (hnames : ∀ a, (members a).map (·.1) = names)
    (hnodup : names.Nodup)
    (hbuild : ∀ a, (∀ member ∈ members a, member.2.InWords) → build ((members a).lookup ·) = some a) :
    Restores (fun d => structure? format names d >>= build) fun a => .table (members a) := by
  rintro a (_ | _ | _ | _ | _ | h)
  refine ⟨nofun, ?_⟩
  dsimp only
  rw [structure?_table (hnames a) hnodup]
  exact hbuild a h

end Restores

@[simp]
theorem optional?_text (x : Option String) : optional? text? (some (.optional .text x)) = some x := by
  cases x <;> rfl

@[simp]
theorem optional?_boolean (x : Option Bool) : optional? boolean? (some (.optional .boolean x)) = some x := by
  cases x <;> rfl

@[simp]
theorem optional?_natural {x : Option Nat} (hx : (Datum.optional .natural x).InWords) :
    optional? natural? (some (.optional .natural x)) = some x :=
  Restores.natural.optional hx

@[simp]
theorem list?_texts (xs : List String) : list? text? (some (.texts xs)) = some xs := by
  refine Restores.text.list (.list fun d hd => ?_)
  obtain ⟨s, -, rfl⟩ := List.mem_map.mp hd
  exact .text s

@[simp]
theorem flag?_boolean (b : Bool) : flag? (some (.boolean b)) = some b := rfl

end Datum

namespace Description

open Datum

variable {format : DataFormat}

theorem TypeUse.restores : Restores (TypeUse.ofDatum? format) TypeUse.toDatum := by
  refine Restores.ofMembers (fun _ => rfl) (by decide) fun d h => ?_
  simp [List.lookup_cons]

theorem ArrayUse.restores : Restores (ArrayUse.ofDatum? format) ArrayUse.toDatum := by
  refine Restores.ofMembers (fun _ => rfl) (by decide) fun d h => ?_
  simp only [List.forall_mem_cons] at h
  simp [List.lookup_cons, TypeUse.restores.optional, h]

theorem Alias.restores : Restores (Alias.ofDatum? format) Alias.toDatum := by
  refine Restores.ofMembers (fun _ => rfl) (by decide) fun d h => ?_
  simp only [List.forall_mem_cons] at h
  simp [List.lookup_cons, TypeUse.restores.optional, h]

theorem Parameter.restores : Restores (Parameter.ofDatum? format) Parameter.toDatum := by
  refine Restores.ofMembers (fun _ => rfl) (by decide) fun d h => ?_
  simp only [List.forall_mem_cons] at h
  simp [List.lookup_cons, TypeUse.restores.optional, ArrayUse.restores.optional, h]

theorem ReturnValue.restores : Restores (ReturnValue.ofDatum? format) ReturnValue.toDatum := by
  refine Restores.ofMembers (fun _ => rfl) (by decide) fun d h => ?_
  simp only [List.forall_mem_cons] at h
  simp [List.lookup_cons, TypeUse.restores.optional, ArrayUse.restores.optional, h]

theorem Callable.restores : Restores (Callable.ofDatum? format) Callable.toDatum := by
  refine Restores.ofMembers (fun _ => rfl) (by decide) fun d h => ?_
  simp only [List.forall_mem_cons] at h
  simp [List.lookup_cons, ReturnValue.restores.optional, Parameter.restores.optional,
    Parameter.restores.list, h]

theorem Callback.restores : Restores (Callback.ofDatum? format) Callback.toDatum := by
  refine Restores.ofMembers (fun _ => rfl) (by decide) fun d h => ?_
  simp only [List.forall_mem_cons] at h
  simp [List.lookup_cons, ReturnValue.restores.optional, Parameter.restores.list, h]

theorem Field.restores : Restores (Field.ofDatum? format) Field.toDatum := by
  refine Restores.ofMembers (fun _ => rfl) (by decide) fun d h => ?_
  simp only [List.forall_mem_cons] at h
  simp [List.lookup_cons, TypeUse.restores.optional, ArrayUse.restores.optional,
    Callback.restores.optional, h]

theorem Signal.restores : Restores (Signal.ofDatum? format) Signal.toDatum := by
  refine Restores.ofMembers (fun _ => rfl) (by decide) fun d h => ?_
  simp only [List.forall_mem_cons] at h
  simp [List.lookup_cons, ReturnValue.restores.optional, Parameter.restores.list, h]

theorem Class.restores : Restores (Class.ofDatum? format) Class.toDatum := by
  refine Restores.ofMembers (fun _ => rfl) (by decide) fun d h => ?_
  simp only [List.forall_mem_cons] at h
  simp [List.lookup_cons, Callable.restores.list, Field.restores.list, Signal.restores.list, h]

theorem Interface.restores : Restores (Interface.ofDatum? format) Interface.toDatum := by
  refine Restores.ofMembers (fun _ => rfl) (by decide) fun d h => ?_
  simp only [List.forall_mem_cons] at h
  simp [List.lookup_cons, Callable.restores.list, Signal.restores.list, h]

theorem Record.restores : Restores (Record.ofDatum? format) Record.toDatum := by
  refine Restores.ofMembers (fun _ => rfl) (by decide) fun d h => ?_
  simp only [List.forall_mem_cons] at h
  simp [List.lookup_cons, Callable.restores.list, Field.restores.list, h]

theorem Union.restores : Restores (Union.ofDatum? format) Union.toDatum := by
  refine Restores.ofMembers (fun _ => rfl) (by decide) fun d h => ?_
  simp only [List.forall_mem_cons] at h
  simp [List.lookup_cons, Callable.restores.list, Field.restores.list, h]

theorem Member.restores : Restores (Member.ofDatum? format) Member.toDatum := by
  refine Restores.ofMembers (fun _ => rfl) (by decide) fun d h => ?_
  simp [List.lookup_cons]

theorem Enumeration.restores : Restores (Enumeration.ofDatum? format) Enumeration.toDatum := by
  refine Restores.ofMembers (fun _ => rfl) (by decide) fun d h => ?_
  simp only [List.forall_mem_cons] at h
  simp [List.lookup_cons, Member.restores.list, Callable.restores.list, h]

theorem Constant.restores : Restores (Constant.ofDatum? format) Constant.toDatum := by
  refine Restores.ofMembers (fun _ => rfl) (by decide) fun d h => ?_
  simp only [List.forall_mem_cons] at h
  simp [List.lookup_cons, TypeUse.restores.optional, h]

theorem Namespace.restores : Restores (Namespace.ofDatum? format) Namespace.toDatum := by
  refine Restores.ofMembers (fun _ => rfl) (by decide) fun d h => ?_
  simp only [List.forall_mem_cons] at h
  simp [List.lookup_cons, Alias.restores.list, Class.restores.list, Interface.restores.list,
    Record.restores.list, Union.restores.list, Enumeration.restores.list, Callback.restores.list,
    Callable.restores.list, Constant.restores.list, h]

theorem Include.restores : Restores (Include.ofDatum? format) Include.toDatum := by
  refine Restores.ofMembers (fun _ => rfl) (by decide) fun d h => ?_
  simp [List.lookup_cons]

end Description

/-- A description is read from what it is written as. -/
theorem Description.restores (format : DataFormat) :
    Datum.Restores (Description.ofDatum? format) Description.toDatum := by
  refine Datum.Restores.ofMembers (fun _ => rfl) (by decide) fun d h => ?_
  simp only [List.forall_mem_cons] at h
  have hnamespace : Namespace.ofDatum? format d.namespaceInfo.toDatum = some d.namespaceInfo :=
    (Namespace.restores d.namespaceInfo h.2.1).2
  simp [List.lookup_cons, Include.restores.list, hnamespace, h]

end Interop
