import Interop.Proofs.References

/-! The inventory of a namespace. What is to be emitted stands at places, and places are ordered as the
declarations of a namespace are. The items of a namespace are what stands at its places: each of them once,
in the order of the places. Main statement: `covers_items`. -/

namespace Interop

/-! ### The order of places -/

def CallableKind.rank : CallableKind → Nat
  | .constructor => 0
  | .method => 1
  | .function => 2

def LayoutKind.rank : LayoutKind → Nat
  | .publicLayout => 0
  | .privateLayout => 1

/-- A class or interface as a holder of callables and signals. -/
def LayoutOwner.holder : LayoutOwner → Holder
  | .classType i => .classType i
  | .interfaceType i => .interfaceType i

/-- The folder of the layouts of a class or interface. -/
def LayoutOwner.folder : LayoutOwner → Emitted.Folder
  | .classType _ => .classes
  | .interfaceType _ => .interfaces

namespace Holder

/-- Holders are ordered by kind and then by position. A layout stands with its owner. -/
def address : Holder → List Nat
  | .enumeration i => [0, i]
  | .bitfield i => [1, i]
  | .classType i => [3, i]
  | .interfaceType i => [4, i]
  | .record i => [5, i]
  | .union i => [6, i]
  | .free => [7]
  | .layout ⟨.classType i, kind⟩ => [3, i, 1, kind.rank]
  | .layout ⟨.interfaceType i, kind⟩ => [4, i, 1, kind.rank]

/-- The holder that is not itself held: for a layout, its owner. -/
def outer : Holder → Holder
  | .layout slot => slot.owner.holder
  | holder => holder

theorem address_layout (owner : LayoutOwner) (kind : LayoutKind) :
    (Holder.layout ⟨owner, kind⟩).address = owner.holder.address ++ [1, kind.rank] := by
  cases owner <;> rfl

end Holder

namespace Place

/-- A type symbol stands before its layouts, these before its callables, and these before its signals. -/
def address : Place → List Nat
  | .type holder => holder.address ++ [0]
  | .callable holder kind i => holder.address ++ [2, kind.rank, i]
  | .signal holder i => holder.address ++ [3, i]
  | .callback i => [2, i]
  | .constant i => [8, i]
  | .alias i => [9, i]

def holder? : Place → Option Holder
  | .type holder => some holder
  | .callable holder _ _ => some holder
  | .signal holder _ => some holder
  | _ => none

/-- The holder that something belongs to in the end: for what belongs to a layout, the owner of the layout. -/
def outer? (place : Place) : Option Holder := place.holder?.map (·.outer)

/-- The places of the layouts of a holder. -/
def InLayoutOf (holder : Holder) (place : Place) : Prop :=
  ∃ slot : LayoutSlot, slot.owner.holder = holder ∧ place.holder? = some (.layout slot)

/-- The kind of declaration by which places are ordered first. -/
def rank (place : Place) : Nat := place.address.headD 0

theorem address_eq_cons (place : Place) : ∃ rest, place.address = place.rank :: rest := by
  rcases place with holder | ⟨holder, _, _⟩ | ⟨holder, _⟩ | _ | _ | _
  any_goals exact ⟨_, rfl⟩
  all_goals rcases holder with _ | _ | _ | _ | _ | _ | _ | ⟨_ | _, _⟩ <;> exact ⟨_, rfl⟩

theorem address_lt_of_rank_lt {p q : Place} (h : p.rank < q.rank) : p.address < q.address := by
  obtain ⟨rest, hp⟩ := p.address_eq_cons
  obtain ⟨rest', hq⟩ := q.address_eq_cons
  rw [hp, hq]
  exact List.cons_lt_cons_iff.mpr (.inl h)

/-- Places are ordered by where their addresses part. -/
theorem address_lt {p q : Place} (shared : List Nat) {rest rest' : List Nat} {a b : Nat}
    (hp : p.address = shared ++ a :: rest) (hq : q.address = shared ++ b :: rest') (h : a < b) :
    p.address < q.address := by
  rw [hp, hq]
  exact List.append_left_lt (List.cons_lt_cons_iff.mpr (.inl h))

/-- The kinds of declarations in their order. What belongs to a type symbol in the end stands in its
section. -/
inductive InSection (place : Place) : Nat → Prop
  | enumeration (i : Nat) (h : place.outer? = some (.enumeration i)) : InSection place 0
  | bitfield (i : Nat) (h : place.outer? = some (.bitfield i)) : InSection place 1
  | callback (i : Nat) (h : place = .callback i) : InSection place 2
  | classType (i : Nat) (h : place.outer? = some (.classType i)) : InSection place 3
  | interfaceType (i : Nat) (h : place.outer? = some (.interfaceType i)) : InSection place 4
  | record (i : Nat) (h : place.outer? = some (.record i)) : InSection place 5
  | union (i : Nat) (h : place.outer? = some (.union i)) : InSection place 6
  | free (h : place.outer? = some .free) : InSection place 7
  | constant (i : Nat) (h : place = .constant i) : InSection place 8
  | unemitted (i : Nat) (h : place = .alias i) : InSection place 9

theorem inSection (place : Place) : place.InSection place.rank := by
  cases place with
  | callback i => exact .callback i rfl
  | constant i => exact .constant i rfl
  | type holder | callable holder _ _ | signal holder _ =>
      cases holder with
      | free => exact .free rfl
      | enumeration i => exact .enumeration i rfl
      | bitfield i => exact .bitfield i rfl
      | classType i => exact .classType i rfl
      | interfaceType i => exact .interfaceType i rfl
      | record i => exact .record i rfl
      | union i => exact .union i rfl
      | layout slot =>
          rcases slot with ⟨i | i, kind⟩
          · exact .classType i rfl
          · exact .interfaceType i rfl
  | _ => exact .unemitted _ rfl

theorem inSection_of_rank {place : Place} {k : Nat} (h : place.rank = k) : place.InSection k :=
  h ▸ place.inSection

theorem exists_address_of_holder {p : Place} {holder : Holder} (h : p.holder? = some holder) :
    ∃ rest, p.address = holder.address ++ rest := by
  rcases p with holder | ⟨holder, _, _⟩ | ⟨holder, _⟩ | _ | _ | _ <;> cases h <;> exact ⟨_, rfl⟩

theorem exists_address_of_layout {p : Place} {slot : LayoutSlot} (h : p.holder? = some (.layout slot)) :
    ∃ rest, p.address = slot.owner.holder.address ++ 1 :: slot.kind.rank :: rest := by
  obtain ⟨rest, hrest⟩ := exists_address_of_holder h
  exact ⟨rest, by rw [hrest, Holder.address_layout, List.append_assoc]; rfl⟩

theorem exists_address_of_outer {p : Place} {holder : Holder} (h : p.outer? = some holder) :
    ∃ rest, p.address = holder.address ++ rest := by
  obtain ⟨held, hheld, rfl⟩ := Option.map_eq_some_iff.mp h
  cases held with
  | layout slot =>
      obtain ⟨rest, hrest⟩ := exists_address_of_layout hheld
      exact ⟨_, hrest⟩
  | _ => exact exists_address_of_holder hheld

end Place

/-! ### What stands at a place -/

/-- The name of a holder; free functions have none. -/
def Namespace.ownerName? (ns : Namespace) : Holder → Option SymbolName
  | .free => none
  | .enumeration i => ns.enumerations[i]?.map (·.name)
  | .bitfield i => ns.bitfields[i]?.map (·.name)
  | .classType i => ns.classes[i]?.map (·.name)
  | .interfaceType i => ns.interfaces[i]?.map (·.name)
  | .record i => ns.records[i]?.map (·.name)
  | .union i => ns.unions[i]?.map (·.name)
  | .layout slot => (ns.layoutAt? slot).map (·.name)

namespace Emitter

variable (e : Emitter) (ns : Namespace)

/-- What is emitted for a type symbol itself, by its identifier. An interface has no layout of its own. -/
def typeWork? : Holder → Option (String × Work)
  | .enumeration i => ns.enumerations[i]?.map fun d => (e.identifier none d.name.native, .enumeration d)
  | .bitfield i => ns.bitfields[i]?.map fun d => (e.identifier none d.name.native, .enumeration d)
  | .classType i => ns.classes[i]?.map fun c => (e.identifier none c.name.native, .classLayout c)
  | .record i => ns.records[i]?.map fun r =>
    (e.identifier none r.name.native, .layout r.name r.ctype r.fields .records)
  | .union i => ns.unions[i]?.map fun u =>
    (e.identifier none u.name.native, .layout u.name u.ctype u.fields .unions)
  | .layout slot => (ns.layoutAt? slot).map fun r =>
    (e.identifier (ns.ownerName? slot.owner.holder) slot.kind.label,
      .layout r.name r.ctype r.fields slot.owner.folder)
  | .interfaceType _ => none
  | .free => none

/-- What is emitted for the declaration at a place, by its identifier. Aliases are not emitted. -/
def workAt? : Place → Option (String × Work)
  | .type holder => e.typeWork? ns holder
  | .callable holder kind i => (ns.callablesOf kind holder)[i]?.map fun c =>
    (e.identifier (ns.ownerName? holder) c.name.native, .callable (ns.ownerName? holder) c)
  | .signal holder i => (ns.ownerName? holder).bind fun owner => (ns.signalsOf holder)[i]?.map fun s =>
    (e.signalIdentifier owner s, .signal owner s)
  | .callback i => ns.callbacks[i]?.map fun c => (e.identifier none c.name.native, .callback c)
  | .constant i => ns.constants[i]?.map fun c => (e.identifier none c.name.native, .constant c)
  | .alias _ => none

/-- Items for what stands at some places: each of them once, in the order of the places. -/
structure Covers (P : Place → Prop) (items : List WorkItem) : Prop where
  mem_iff : ∀ item, item ∈ items ↔ P item.place ∧ e.workAt? ns item.place = some (item.identifier, item.work)
  ascending : items.Pairwise fun a b => a.place.address < b.place.address

namespace Covers

variable {e ns} {P Q : Place → Prop} {items others : List WorkItem}

/-- It is enough to know of the places where something stands. -/
theorem congr (h : e.Covers ns P items)
    (hplaces : ∀ place, (e.workAt? ns place).isSome → (P place ↔ Q place)) : e.Covers ns Q items where
  mem_iff item := by
    rw [h.mem_iff]
    exact and_congr_left fun hwork => hplaces item.place (by rw [hwork]; rfl)
  ascending := h.ascending

theorem nil (h : ∀ place, P place → e.workAt? ns place = none) : e.Covers ns P [] where
  mem_iff item := by
    refine iff_of_false (List.not_mem_nil) fun ⟨hplace, hwork⟩ => ?_
    rw [h item.place hplace] at hwork
    cases hwork
  ascending := .nil

theorem append (h : e.Covers ns P items) (h' : e.Covers ns Q others)
    (hlt : ∀ p q, P p → Q q → p.address < q.address) :
    e.Covers ns (fun place => P place ∨ Q place) (items ++ others) where
  mem_iff item := by rw [List.mem_append, h.mem_iff, h'.mem_iff, ← or_and_right]
  ascending := List.pairwise_append.mpr ⟨h.ascending, h'.ascending, fun a ha b hb =>
    hlt a.place b.place ((h.mem_iff a).mp ha).1 ((h'.mem_iff b).mp hb).1⟩

theorem singleton {place : Place} {identifier : String} {work : Work}
    (h : e.workAt? ns place = some (identifier, work)) :
    e.Covers ns (fun other => other = place) [⟨identifier, place, work⟩] where
  mem_iff item := by
    obtain ⟨identifier', place', work'⟩ := item
    rw [List.mem_singleton, WorkItem.mk.injEq]
    constructor
    · rintro ⟨rfl, rfl, rfl⟩
      exact ⟨rfl, h⟩
    · rintro ⟨rfl, hwork⟩
      rw [h] at hwork
      obtain ⟨rfl, rfl⟩ := Prod.mk.inj (Option.some.inj hwork)
      exact ⟨rfl, rfl, rfl⟩
  ascending := List.pairwise_singleton _ _

/-- The items of a list of declarations cover what they cover for each of them. -/
theorem flatMap {α : Type} {l : List α} {f : α → Nat → List WorkItem} {P : Nat → Place → Prop}
    (h : ∀ a i, l[i]? = some a → e.Covers ns (P i) (f a i))
    (hnone : ∀ i, l[i]? = none → ∀ place, P i place → e.workAt? ns place = none)
    (hlt : ∀ i j p q, i < j → P i p → P j q → p.address < q.address) :
    e.Covers ns (fun place => ∃ i, P i place) (l.zipIdx.flatMap fun (a, i) => f a i) where
  mem_iff item := by
    rw [List.mem_flatMap]
    constructor
    · rintro ⟨⟨a, i⟩, hmem, hitem⟩
      obtain ⟨hplace, hwork⟩ := ((h a i (List.mk_mem_zipIdx_iff_getElem?.mp hmem)).mem_iff item).mp hitem
      exact ⟨⟨i, hplace⟩, hwork⟩
    · rintro ⟨⟨i, hplace⟩, hwork⟩
      cases hget : l[i]? with
      | none =>
          rw [hnone i hget item.place hplace] at hwork
          cases hwork
      | some a =>
          exact ⟨(a, i), List.mk_mem_zipIdx_iff_getElem?.mpr hget,
            ((h a i hget).mem_iff item).mpr ⟨hplace, hwork⟩⟩
  ascending := by
    refine List.pairwise_flatMap.mpr ⟨?_, ?_⟩
    · rintro ⟨a, i⟩ hmem
      exact (h a i (List.mk_mem_zipIdx_iff_getElem?.mp hmem)).ascending
    · have hpositions : l.zipIdx.Pairwise fun x y => x.2 < y.2 := by
        have hrange : (l.zipIdx.map (·.2)).Pairwise (· < ·) := by
          rw [List.zipIdx_map_snd]
          exact List.pairwise_lt_range'
        exact List.pairwise_map.mp hrange
      refine hpositions.imp_of_mem ?_
      rintro ⟨a, i⟩ ⟨b, j⟩ ha hb hij x hx y hy
      have hx := ((h a i (List.mk_mem_zipIdx_iff_getElem?.mp ha)).mem_iff x).mp hx
      have hy := ((h b j (List.mk_mem_zipIdx_iff_getElem?.mp hb)).mem_iff y).mp hy
      exact hlt i j x.place y.place hij hx.1 hy.1

/-- A list of declarations with one item each. -/
theorem map {α : Type} {l : List α} (place : Nat → Place) (identifier : α → String) (work : α → Work)
    (hwork : ∀ i, e.workAt? ns (place i) = l[i]?.map fun a => (identifier a, work a))
    (hlt : ∀ i j, i < j → (place i).address < (place j).address) :
    e.Covers ns (fun other => ∃ i, other = place i)
      (l.zipIdx.map fun (a, i) => ⟨identifier a, place i, work a⟩) := by
  rw [List.map_eq_flatMap]
  refine flatMap (f := fun a i => [⟨identifier a, place i, work a⟩]) (fun a i ha => ?_) ?_ ?_
  · refine singleton ?_
    rw [hwork, ha, Option.map_some]
  · rintro i hi _ rfl
    rw [hwork, hi, Option.map_none]
  · rintro i j _ _ hij rfl rfl
    exact hlt i j hij

end Covers

/-! ### The items of each kind of declaration -/

variable {e ns}

theorem covers_callableItems {holder : Holder} {owner : Option SymbolName} (kind : CallableKind)
    (howner : ns.ownerName? holder = owner) :
    e.Covers ns (fun place => ∃ i, place = .callable holder kind i)
      (e.callableItems holder owner kind (ns.callablesOf kind holder)) := by
  refine .map (.callable holder kind ·) (fun c => e.identifier owner c.name.native) (.callable owner ·)
    (fun i => ?_) ?_
  · rw [workAt?, howner]
  · intro i j hij
    refine List.append_left_lt ?_
    rw [List.cons_lt_cons_self, List.cons_lt_cons_self]
    exact List.cons_lt_cons_iff.mpr (.inl hij)

theorem covers_memberItems {holder : Holder} {owner : SymbolName} {c : Callables}
    (howner : ns.ownerName? holder = some owner)
    (hcallables : ∀ kind, ns.callablesOf kind holder = c.ofKind kind) :
    e.Covers ns (fun place => ∃ kind i, place = .callable holder kind i) (e.memberItems holder owner c) := by
  have hkind : ∀ kind, e.Covers ns (fun place => ∃ i, place = .callable holder kind i)
      (e.callableItems holder (some owner) kind (c.ofKind kind)) := by
    intro kind
    rw [← hcallables]
    exact covers_callableItems kind howner
  have hlt : ∀ {kind kind' : CallableKind} (i j : Nat), kind.rank < kind'.rank →
      (Place.callable holder kind i).address < (Place.callable holder kind' j).address := by
    intro kind kind' i j h
    exact List.append_left_lt (List.cons_lt_cons_iff.mpr (.inr ⟨rfl, List.cons_lt_cons_iff.mpr (.inl h)⟩))
  refine (((hkind .constructor).append (hkind .method) ?_).append (hkind .function) ?_).congr
    fun place _ => ?_
  · rintro _ _ ⟨i, rfl⟩ ⟨j, rfl⟩
    exact hlt i j (by decide)
  · rintro _ _ (⟨i, rfl⟩ | ⟨i, rfl⟩) ⟨j, rfl⟩
    · exact hlt i j (by decide)
    · exact hlt i j (by decide)
  · constructor
    · rintro ((⟨i, rfl⟩ | ⟨i, rfl⟩) | ⟨i, rfl⟩)
      · exact ⟨.constructor, i, rfl⟩
      · exact ⟨.method, i, rfl⟩
      · exact ⟨.function, i, rfl⟩
    · rintro ⟨_ | _ | _, i, rfl⟩
      · exact .inr ⟨i, rfl⟩
      · exact .inl (.inr ⟨i, rfl⟩)
      · exact .inl (.inl ⟨i, rfl⟩)

theorem covers_signalItems {holder : Holder} {owner : SymbolName}
    (howner : ns.ownerName? holder = some owner) :
    e.Covers ns (fun place => ∃ i, place = .signal holder i)
      (e.signalItems holder owner (ns.signalsOf holder)) := by
  refine .map (.signal holder ·) (e.signalIdentifier owner ·) (.signal owner ·) (fun i => ?_) ?_
  · rw [workAt?, howner]
    rfl
  · intro i j hij
    refine List.append_left_lt ?_
    rw [List.cons_lt_cons_self]
    exact List.cons_lt_cons_iff.mpr (.inl hij)

/-- What belongs to a holder: its type symbol, its layouts, its callables and its signals. -/
theorem covers_parts {holder : Holder} {name : SymbolName} {c : Callables} {types layouts : List WorkItem}
    (hname : ns.ownerName? holder = some name)
    (hcallables : ∀ kind, ns.callablesOf kind holder = c.ofKind kind)
    (htypes : e.Covers ns (fun place => place = .type holder) types)
    (hlayouts : e.Covers ns (·.InLayoutOf holder) layouts) :
    e.Covers ns (fun place => place.holder? = some holder ∨ place.InLayoutOf holder)
      (types ++ layouts ++ e.memberItems holder name c
        ++ e.signalItems holder name (ns.signalsOf holder)) := by
  have hmembers := covers_memberItems (e := e) hname hcallables
  refine (((htypes.append hlayouts ?_).append hmembers ?_).append (covers_signalItems hname) ?_).congr
    fun place _ => ?_
  · rintro _ q rfl ⟨slot, rfl, hq⟩
    obtain ⟨rest, hrest⟩ := Place.exists_address_of_layout hq
    exact Place.address_lt slot.owner.holder.address rfl hrest (by decide)
  · rintro p _ (rfl | ⟨slot, rfl, hp⟩) ⟨kind, i, rfl⟩
    · exact Place.address_lt holder.address rfl rfl (by decide)
    · obtain ⟨rest, hrest⟩ := Place.exists_address_of_layout hp
      exact Place.address_lt slot.owner.holder.address hrest rfl (by decide)
  · rintro p _ ((rfl | ⟨slot, rfl, hp⟩) | ⟨kind, i, rfl⟩) ⟨j, rfl⟩
    · exact Place.address_lt holder.address rfl rfl (by decide)
    · obtain ⟨rest, hrest⟩ := Place.exists_address_of_layout hp
      exact Place.address_lt slot.owner.holder.address hrest rfl (by decide)
    · exact Place.address_lt holder.address rfl rfl (by decide)
  · constructor
    · rintro (((rfl | hlayout) | ⟨kind, i, rfl⟩) | ⟨i, rfl⟩)
      · exact .inl rfl
      · exact .inr hlayout
      · exact .inl rfl
      · exact .inl rfl
    · rintro (hholder | hlayout)
      · rcases place with holder | ⟨holder, kind, i⟩ | ⟨holder, i⟩ | _ | _ | _ <;> cases hholder
        · exact .inl (.inl (.inl rfl))
        · exact .inl (.inr ⟨kind, i, rfl⟩)
        · exact .inr ⟨i, rfl⟩
      · exact .inl (.inl (.inr hlayout))

/-- Only classes and interfaces have layouts. -/
theorem covers_layouts_nil {holder : Holder} (h : ∀ owner : LayoutOwner, owner.holder ≠ holder) :
    e.Covers ns (·.InLayoutOf holder) [] :=
  .nil fun _ ⟨slot, hslot, _⟩ => absurd hslot (h slot.owner)

/-- What belongs to a layout: its record and the callables of its record. -/
theorem covers_layout {slot : LayoutSlot} {name : SymbolName} {record : Record}
    (hname : ns.ownerName? slot.owner.holder = some name) (hlayout : ns.layoutAt? slot = some record) :
    e.Covers ns (fun place => place.holder? = some (.layout slot))
      (⟨e.identifier (some name) slot.kind.label, .type (.layout slot),
          .layout record.name record.ctype record.fields slot.owner.folder⟩
        :: e.memberItems (.layout slot) record.name record.callables) := by
  have htype : e.workAt? ns (.type (.layout slot)) = some (e.identifier (some name) slot.kind.label,
      .layout record.name record.ctype record.fields slot.owner.folder) := by
    rw [workAt?, typeWork?, hlayout, Option.map_some, hname]
  have howner : ns.ownerName? (.layout slot) = some record.name := by
    rw [Namespace.ownerName?, hlayout, Option.map_some]
  have hcallables : ∀ kind, ns.callablesOf kind (.layout slot) = record.callables.ofKind kind := by
    intro kind
    rw [Namespace.callablesOf, hlayout, Option.elim_some]
  have hnested : ∀ other : LayoutOwner, other.holder ≠ .layout slot := by
    rintro (_ | _) <;> exact Holder.noConfusion
  have hparts := covers_parts howner hcallables (.singleton htype) (covers_layouts_nil hnested)
  rw [List.append_nil] at hparts
  have hholder := hparts.congr (Q := fun place => place.holder? = some (.layout slot)) fun place _ => by
    refine ⟨?_, Or.inl⟩
    rintro (hplace | ⟨slot', hslot, -⟩)
    · exact hplace
    · exact absurd hslot (hnested slot'.owner)
  exact List.append_nil (_ :: e.memberItems _ _ _) ▸ hholder

theorem covers_layoutItems (owner : LayoutOwner) {name : SymbolName} {layouts : Layouts}
    (hname : ns.ownerName? owner.holder = some name)
    (hlayouts : ∀ kind, ns.layoutAt? ⟨owner, kind⟩ = layouts.get? kind) :
    e.Covers ns (·.InLayoutOf owner.holder)
      (e.layoutItems owner name layouts owner.folder) := by
  have hkind : ∀ kind, e.Covers ns (fun place => place.holder? = some (.layout ⟨owner, kind⟩))
      ((layouts.get? kind).toList.flatMap fun record =>
        ⟨e.identifier (some name) kind.label, .type (.layout ⟨owner, kind⟩),
            .layout record.name record.ctype record.fields owner.folder⟩
          :: e.memberItems (.layout ⟨owner, kind⟩) record.name record.callables) := by
    intro kind
    cases hget : layouts.get? kind with
    | none =>
        have hlayout := (hlayouts kind).trans hget
        refine .nil fun place hplace => ?_
        rcases place with holder | ⟨holder, _, _⟩ | ⟨holder, _⟩ | _ | _ | _ <;> cases hplace
        · rw [workAt?, typeWork?, hlayout, Option.map_none]
        · rw [workAt?, Namespace.callablesOf, hlayout]
          rfl
        · rw [workAt?, Namespace.ownerName?, hlayout]
          rfl
    | some record =>
        rw [Option.toList_some, List.flatMap_singleton]
        exact covers_layout hname ((hlayouts kind).trans hget)
  have hboth := (hkind .publicLayout).append (hkind .privateLayout) ?_
  · rw [layoutItems, Layouts.toList, List.flatMap_append, List.flatMap_map, List.flatMap_map]
    refine hboth.congr fun place _ => ?_
    constructor
    · rintro (hplace | hplace)
      · exact ⟨_, rfl, hplace⟩
      · exact ⟨_, rfl, hplace⟩
    · rintro ⟨⟨other, kind⟩, hother, hplace⟩
      obtain rfl : other = owner := by
        cases other <;> cases owner <;> cases hother <;> rfl
      cases kind with
      | publicLayout => exact .inl hplace
      | privateLayout => exact .inr hplace
  · intro p q hp hq
    obtain ⟨rest, hrest⟩ := Place.exists_address_of_layout hp
    obtain ⟨rest', hrest'⟩ := Place.exists_address_of_layout hq
    exact Place.address_lt (owner.holder.address ++ [1]) (by rw [hrest, List.append_assoc]; rfl)
      (by rw [hrest', List.append_assoc]; rfl) Nat.zero_lt_one

/-- What belongs to a type symbol in the end. -/
theorem covers_symbol {holder : Holder} {name : SymbolName} {c : Callables} {types layouts : List WorkItem}
    (hholder : holder.outer = holder) (hname : ns.ownerName? holder = some name)
    (hcallables : ∀ kind, ns.callablesOf kind holder = c.ofKind kind)
    (htypes : e.Covers ns (fun place => place = .type holder) types)
    (hlayouts : e.Covers ns (·.InLayoutOf holder) layouts) :
    e.Covers ns (fun place => place.outer? = some holder)
      (types ++ layouts ++ e.memberItems holder name c
        ++ e.signalItems holder name (ns.signalsOf holder)) := by
  refine (covers_parts hname hcallables htypes hlayouts).congr fun place _ => ?_
  constructor
  · rintro (hplace | ⟨slot, rfl, hplace⟩)
    · rw [Place.outer?, hplace, Option.map_some, hholder]
    · rw [Place.outer?, hplace]
      rfl
  · intro hplace
    obtain ⟨held, hheld, rfl⟩ := Option.map_eq_some_iff.mp hplace
    cases held with
    | layout slot => exact .inr ⟨slot, rfl, hheld⟩
    | _ => exact .inl hheld

/-- What belongs to a type symbol that has neither layouts nor signals. -/
theorem covers_plainItems {holder : Holder} {name : SymbolName} {c : Callables} {identifier : String}
    {work : Work} (hholder : holder.outer = holder) (hnested : ∀ owner : LayoutOwner, owner.holder ≠ holder)
    (htype : e.typeWork? ns holder = some (identifier, work)) (hname : ns.ownerName? holder = some name)
    (hcallables : ∀ kind, ns.callablesOf kind holder = c.ofKind kind) (hsignals : ns.signalsOf holder = []) :
    e.Covers ns (fun place => place.outer? = some holder)
      (⟨identifier, .type holder, work⟩ :: e.memberItems holder name c) := by
  have hsymbol := covers_symbol hholder hname hcallables (.singleton htype) (covers_layouts_nil hnested)
  rw [hsignals] at hsymbol
  exact List.append_nil (_ :: e.memberItems holder name c) ▸ hsymbol

/-- What belongs to an enumeration or bitfield, by what its holder has. -/
theorem covers_enumerationItems {holder : Holder} {l : List Enumeration} {i : Nat} {d : Enumeration}
    (hd : l[i]? = some d) (hholder : holder.outer = holder)
    (hlayouts : ∀ owner : LayoutOwner, owner.holder ≠ holder)
    (htype : e.typeWork? ns holder =
      l[i]?.map fun d => (e.identifier none d.name.native, .enumeration d))
    (hname : ns.ownerName? holder = l[i]?.map (·.name))
    (hcallables : ∀ kind, ns.callablesOf kind holder =
      if kind = .function then l[i]?.elim [] (·.functions) else [])
    (hsignals : ns.signalsOf holder = []) :
    e.Covers ns (fun place => place.outer? = some holder) (e.enumerationItems holder d) := by
  rw [hd, Option.map_some] at htype hname
  have hfunctions : ∀ kind, ns.callablesOf kind holder = (Callables.mk [] [] d.functions).ofKind kind := by
    intro kind
    rw [hcallables, hd]
    cases kind <;> rfl
  exact covers_plainItems hholder hlayouts htype hname hfunctions hsignals

theorem covers_classItems {i : Nat} {c : Class} (hc : ns.classes[i]? = some c) :
    e.Covers ns (fun place => place.outer? = some (.classType i)) (e.classItems i c) := by
  have htype : e.typeWork? ns (.classType i) = some (e.identifier none c.name.native, .classLayout c) := by
    rw [typeWork?, hc, Option.map_some]
  have hname : ns.ownerName? (.classType i) = some c.name := by
    rw [Namespace.ownerName?, hc, Option.map_some]
  have hcallables : ∀ kind, ns.callablesOf kind (.classType i) = c.callables.ofKind kind := by
    intro kind
    rw [Namespace.callablesOf, hc, Option.elim_some]
  have hlayouts : ∀ kind, ns.layoutAt? ⟨.classType i, kind⟩ = c.layouts.get? kind := by
    intro kind
    simp only [Namespace.layoutAt?, hc, Option.bind_some]
  have hsymbol := covers_symbol rfl hname hcallables (.singleton htype)
    (covers_layoutItems (.classType i) hname hlayouts)
  rw [Namespace.signalsOf, hc, Option.elim_some] at hsymbol
  exact hsymbol

theorem covers_interfaceItems {i : Nat} {c : Interface} (hc : ns.interfaces[i]? = some c) :
    e.Covers ns (fun place => place.outer? = some (.interfaceType i)) (e.interfaceItems i c) := by
  have htype : ∀ place, place = .type (.interfaceType i) → e.workAt? ns place = none := by
    rintro _ rfl
    rfl
  have hname : ns.ownerName? (.interfaceType i) = some c.name := by
    rw [Namespace.ownerName?, hc, Option.map_some]
  have hcallables : ∀ kind, ns.callablesOf kind (.interfaceType i) = c.callables.ofKind kind := by
    intro kind
    rw [Namespace.callablesOf, hc, Option.elim_some]
  have hlayouts : ∀ kind, ns.layoutAt? ⟨.interfaceType i, kind⟩ = c.layouts.get? kind := by
    intro kind
    simp only [Namespace.layoutAt?, hc, Option.bind_some]
  have hsymbol := covers_symbol rfl hname hcallables (.nil htype)
    (covers_layoutItems (.interfaceType i) hname hlayouts)
  rw [Namespace.signalsOf, hc, Option.elim_some] at hsymbol
  exact hsymbol

theorem covers_recordItems {i : Nat} {r : Record} (hr : ns.records[i]? = some r) :
    e.Covers ns (fun place => place.outer? = some (.record i)) (e.recordItems i r) := by
  have htype : e.typeWork? ns (.record i) =
      some (e.identifier none r.name.native, .layout r.name r.ctype r.fields .records) := by
    rw [typeWork?, hr, Option.map_some]
  have hname : ns.ownerName? (.record i) = some r.name := by
    rw [Namespace.ownerName?, hr, Option.map_some]
  have hcallables : ∀ kind, ns.callablesOf kind (.record i) = r.callables.ofKind kind := by
    intro kind
    rw [Namespace.callablesOf, hr, Option.elim_some]
  have hnested : ∀ owner : LayoutOwner, owner.holder ≠ .record i := by
    rintro (_ | _) <;> exact Holder.noConfusion
  exact covers_plainItems rfl hnested htype hname hcallables rfl

theorem covers_unionItems {i : Nat} {u : Union} (hu : ns.unions[i]? = some u) :
    e.Covers ns (fun place => place.outer? = some (.union i)) (e.unionItems i u) := by
  have htype : e.typeWork? ns (.union i) =
      some (e.identifier none u.name.native, .layout u.name u.ctype u.fields .unions) := by
    rw [typeWork?, hu, Option.map_some]
  have hname : ns.ownerName? (.union i) = some u.name := by
    rw [Namespace.ownerName?, hu, Option.map_some]
  have hcallables : ∀ kind, ns.callablesOf kind (.union i) = u.callables.ofKind kind := by
    intro kind
    rw [Namespace.callablesOf, hu, Option.elim_some]
  have hnested : ∀ owner : LayoutOwner, owner.holder ≠ .union i := by
    rintro (_ | _) <;> exact Holder.noConfusion
  exact covers_plainItems rfl hnested htype hname hcallables rfl

/-! ### All items -/

/-- Nothing stands at a place whose holder is not there. -/
theorem workAt?_eq_none {place : Place} {holder : Holder} (hplace : place.outer? = some holder)
    (hname : ns.ownerName? holder = none) (hfree : holder ≠ .free) : e.workAt? ns place = none := by
  obtain ⟨held, hheld, rfl⟩ := Option.map_eq_some_iff.mp hplace
  have habsent : ns.ownerName? held = none ∧ e.typeWork? ns held = none ∧
      ∀ kind, ns.callablesOf kind held = [] := by
    rcases held with _ | i | i | i | i | i | i | ⟨i | i, kind⟩
    · exact absurd rfl hfree
    all_goals
      have hget := Option.map_eq_none_iff.mp hname
      simp [Namespace.ownerName?, typeWork?, Namespace.callablesOf, Namespace.layoutAt?, hget]
  obtain ⟨hheldName, htype, hcallables⟩ := habsent
  rcases place with holder | ⟨holder, kind, i⟩ | ⟨holder, i⟩ | _ | _ | _ <;> cases hheld
  · exact htype
  · rw [workAt?, hcallables]
    rfl
  · rw [workAt?, hheldName]
    rfl

/-- The items of a kind of type symbols. -/
theorem covers_section {α : Type} {l : List α} (holder : Nat → Holder) (name : α → SymbolName)
    (f : α → Nat → List WorkItem) {k : Nat} (haddress : ∀ i, (holder i).address = [k, i])
    (hname : ∀ i, ns.ownerName? (holder i) = l[i]?.map name)
    (hsection : ∀ place : Place, place.InSection k → ∃ i, place.outer? = some (holder i))
    (h : ∀ a i, l[i]? = some a → e.Covers ns (fun place => place.outer? = some (holder i)) (f a i)) :
    e.Covers ns (fun place => place.rank = k) (l.zipIdx.flatMap fun (a, i) => f a i) := by
  have hgoes : ∀ {place : Place} {i : Nat}, place.outer? = some (holder i) →
      ∃ rest, place.address = k :: i :: rest := by
    intro place i hplace
    obtain ⟨rest, hrest⟩ := Place.exists_address_of_outer hplace
    exact ⟨rest, by rw [hrest, haddress]; rfl⟩
  refine (Covers.flatMap h (fun i hi place hplace => ?_) fun i j p q hij hp hq => ?_).congr fun place _ => ?_
  · refine workAt?_eq_none hplace (by rw [hname, hi, Option.map_none]) fun hfree => ?_
    have hfree' := haddress i
    rw [hfree] at hfree'
    cases hfree'
  · obtain ⟨rest, hrest⟩ := hgoes hp
    obtain ⟨rest', hrest'⟩ := hgoes hq
    exact Place.address_lt [k] hrest hrest' hij
  · constructor
    · rintro ⟨i, hplace⟩
      obtain ⟨rest, hrest⟩ := hgoes hplace
      rw [Place.rank, hrest]
      rfl
    · exact fun hrank => hsection place (Place.inSection_of_rank hrank)

/-- The items of one kind of declaration after another. -/
theorem Covers.appendSection {items others : List WorkItem} {k : Nat}
    (h : e.Covers ns (fun place => place.rank < k) items)
    (h' : e.Covers ns (fun place => place.rank = k) others) :
    e.Covers ns (fun place => place.rank < k + 1) (items ++ others) :=
  (h.append h' fun _ _ hp hq => Place.address_lt_of_rank_lt (hq ▸ hp)).congr fun _ _ =>
    Nat.lt_succ_iff_lt_or_eq.symm

theorem covers_callbacks : e.Covers ns (fun place => place.rank = 2) (ns.callbacks.zipIdx.map fun (c, i) =>
    ⟨e.identifier none c.name.native, .callback i, .callback c⟩) := by
  refine (Covers.map .callback (fun c => e.identifier none c.name.native) .callback (fun _ => rfl)
    fun i j hij => Place.address_lt [2] rfl rfl hij).congr fun place _ => ⟨?_, fun hrank => ?_⟩
  · rintro ⟨i, rfl⟩
    rfl
  · cases Place.inSection_of_rank hrank with
    | callback i h => exact ⟨i, h⟩

theorem covers_constants : e.Covers ns (fun place => place.rank = 8) (ns.constants.zipIdx.map fun (c, i) =>
    ⟨e.identifier none c.name.native, .constant i, .constant c⟩) := by
  refine (Covers.map .constant (fun c => e.identifier none c.name.native) .constant (fun _ => rfl)
    fun i j hij => Place.address_lt [8] rfl rfl hij).congr fun place _ => ⟨?_, fun hrank => ?_⟩
  · rintro ⟨i, rfl⟩
    rfl
  · cases Place.inSection_of_rank hrank with
    | constant i h => exact ⟨i, h⟩

theorem covers_functions :
    e.Covers ns (fun place => place.rank = 7) (e.callableItems .free none .function ns.functions) := by
  refine (covers_callableItems .function rfl).congr fun place hwork => ⟨?_, fun hrank => ?_⟩
  · rintro ⟨i, rfl⟩
    rfl
  · cases Place.inSection_of_rank hrank with
    | free h =>
        obtain ⟨held, hheld, hfree⟩ := Option.map_eq_some_iff.mp h
        obtain rfl : held = .free := by
          rcases held with _ | _ | _ | _ | _ | _ | _ | ⟨_ | _, _⟩ <;> cases hfree
          rfl
        rcases place with holder | ⟨holder, kind, i⟩ | ⟨holder, i⟩ | _ | _ | _ <;> cases hheld
        · cases hwork
        · cases kind with
          | function => exact ⟨i, rfl⟩
          | method | constructor => cases hwork
        · cases hwork

/-- The items of a namespace are all that is to be emitted: each declaration once, in the order of the
namespace. -/
theorem covers_items (e : Emitter) (ns : Namespace) : e.Covers ns (fun _ => True) (e.items ns) := by
  have hnone : ∀ (i : Nat) (owner : LayoutOwner),
      owner.holder ≠ .enumeration i ∧ owner.holder ≠ .bitfield i := by
    rintro i (_ | _) <;> exact ⟨Holder.noConfusion, Holder.noConfusion⟩
  have henumerations : e.Covers ns (fun place => place.rank = 0) _ :=
    covers_section .enumeration (·.name) (fun d i => e.enumerationItems (.enumeration i) d) (fun _ => rfl)
      (fun _ => rfl) (fun _ h => by cases h with | enumeration i h => exact ⟨i, h⟩)
      fun _ i hd => covers_enumerationItems hd rfl (fun owner => (hnone i owner).1) rfl rfl (fun _ => rfl) rfl
  have hbitfields : e.Covers ns (fun place => place.rank = 1) _ :=
    covers_section .bitfield (·.name) (fun d i => e.enumerationItems (.bitfield i) d) (fun _ => rfl)
      (fun _ => rfl) (fun _ h => by cases h with | bitfield i h => exact ⟨i, h⟩)
      fun _ i hd => covers_enumerationItems hd rfl (fun owner => (hnone i owner).2) rfl rfl (fun _ => rfl) rfl
  have hclasses : e.Covers ns (fun place => place.rank = 3) _ :=
    covers_section .classType (·.name) (fun c i => e.classItems i c) (fun _ => rfl) (fun _ => rfl)
      (fun _ h => by cases h with | classType i h => exact ⟨i, h⟩) fun _ _ => covers_classItems
  have hinterfaces : e.Covers ns (fun place => place.rank = 4) _ :=
    covers_section .interfaceType (·.name) (fun c i => e.interfaceItems i c) (fun _ => rfl) (fun _ => rfl)
      (fun _ h => by cases h with | interfaceType i h => exact ⟨i, h⟩) fun _ _ => covers_interfaceItems
  have hrecords : e.Covers ns (fun place => place.rank = 5) _ :=
    covers_section .record (·.name) (fun r i => e.recordItems i r) (fun _ => rfl) (fun _ => rfl)
      (fun _ h => by cases h with | record i h => exact ⟨i, h⟩) fun _ _ => covers_recordItems
  have hunions : e.Covers ns (fun place => place.rank = 6) _ :=
    covers_section .union (·.name) (fun u i => e.unionItems i u) (fun _ => rfl) (fun _ => rfl)
      (fun _ h => by cases h with | union i h => exact ⟨i, h⟩) fun _ _ => covers_unionItems
  have hfirst : e.Covers ns (fun place => place.rank < 1) _ :=
    henumerations.congr fun _ _ => Nat.lt_one_iff.symm
  have hall := (((((((hfirst.appendSection hbitfields).appendSection covers_callbacks).appendSection
    hclasses).appendSection hinterfaces).appendSection hrecords).appendSection hunions).appendSection
    covers_functions).appendSection covers_constants
  refine hall.congr fun place hwork => iff_of_true ?_ trivial
  have hsection := place.inSection
  generalize place.rank = k at hsection
  cases hsection with
  | unemitted i h =>
      rw [h] at hwork
      cases hwork
  | _ => decide

theorem fieldReferenceAt?_of_typeWork? {holder : Holder} {identifier : String} {work : Work} {slot : TypeSlot}
    {reference : TypeReference} (h : e.typeWork? ns holder = some (identifier, work))
    (hreference : work.referenceAt? slot = some reference) :
    fieldReferenceAt? (ns.fieldsOf holder) slot = some reference := by
  cases holder with
  | enumeration i | bitfield i =>
      obtain ⟨d, -, hwork⟩ := Option.map_eq_some_iff.mp h
      obtain ⟨-, rfl⟩ := Prod.mk.inj hwork
      cases hreference
  | classType i | record i | union i | layout slot =>
      obtain ⟨declared, hdeclared, hwork⟩ := Option.map_eq_some_iff.mp h
      obtain ⟨-, rfl⟩ := Prod.mk.inj hwork
      rw [Namespace.fieldsOf, hdeclared, Option.elim_some]
      exact hreference
  | interfaceType i | free => cases h

/-- The references of what stands at a place are those of the namespace at that place. -/
theorem declaredIn_of_workAt? {item : WorkItem}
    (h : e.workAt? ns item.place = some (item.identifier, item.work)) : item.DeclaredIn ns := by
  obtain ⟨identifier, place, work⟩ := item
  intro slot reference hreference
  dsimp only at h hreference ⊢
  cases place with
  | type holder => exact fieldReferenceAt?_of_typeWork? h hreference
  | callable holder kind i =>
      obtain ⟨c, hc, hwork⟩ := Option.map_eq_some_iff.mp h
      obtain ⟨-, rfl⟩ := Prod.mk.inj hwork
      rw [Namespace.referenceAt?, hc]
      exact hreference
  | signal holder i =>
      obtain ⟨owner, -, h⟩ := Option.bind_eq_some_iff.mp h
      obtain ⟨s, hs, hwork⟩ := Option.map_eq_some_iff.mp h
      obtain ⟨-, rfl⟩ := Prod.mk.inj hwork
      rw [Namespace.referenceAt?, hs]
      exact hreference
  | callback i =>
      obtain ⟨c, hc, hwork⟩ := Option.map_eq_some_iff.mp h
      obtain ⟨-, rfl⟩ := Prod.mk.inj hwork
      rw [Namespace.referenceAt?, hc]
      exact hreference
  | constant i =>
      obtain ⟨c, hc, hwork⟩ := Option.map_eq_some_iff.mp h
      obtain ⟨-, rfl⟩ := Prod.mk.inj hwork
      rw [Namespace.referenceAt?, hc]
      exact hreference
  | _ => cases h

/-- What the items of a namespace emit is declared at their places. -/
theorem declaredIn_items (e : Emitter) {ns : Namespace} {item : WorkItem} (h : item ∈ e.items ns) :
    item.DeclaredIn ns :=
  declaredIn_of_workAt? (((e.covers_items ns).mem_iff item).mp h).2

end Emitter

end Interop
