import Interop.Proofs.Inventory
import Interop.Proofs.Registering

/-! Folding records into layouts. A record that names a class or interface leaves the list of records and is
kept in the slot that it names; of several records that name one slot, the last one is kept. Every other
record is kept as it is. Main statement: `records_kept`. -/

namespace Interop

theorem Layouts.get?_put (layouts : Layouts) (record : Record) (kind other : LayoutKind) :
    (layouts.put record kind).get? other = if other = kind then some record else layouts.get? other := by
  cases kind <;> cases other <;> rfl

namespace Namespace

variable {ns placed : Namespace} {record : Record}

/-! ### Owners -/

/-- Two namespaces in which the same names belong to the same classes and interfaces. -/
structure SameOwners (ns placed : Namespace) : Prop where
  key : placed.key = ns.key
  classes : placed.classes.map (·.name) = ns.classes.map (·.name)
  interfaces : placed.interfaces.map (·.name) = ns.interfaces.map (·.name)

/-- Owners are found by the names of the classes and interfaces. -/
theorem layoutOwner?_eq (ns : Namespace) (name : String) :
    ns.layoutOwner? name =
      (((ns.classes.map (·.name)).zipIdx.find? (·.1.native == name)).map fun (found, i) =>
        (LayoutOwner.classType i, found)).or
      (((ns.interfaces.map (·.name)).zipIdx.find? (·.1.native == name)).map fun (found, i) =>
        (LayoutOwner.interfaceType i, found)) := by
  have hfind : ∀ {α : Type} (l : List α) (f : α → SymbolName),
      (l.map f).zipIdx.find? (·.1.native == name) =
        (l.zipIdx.find? fun entry => (f entry.1).native == name).map (Prod.map f id) := by
    intro α l f
    rw [List.zipIdx_map, List.find?_map]
    rfl
  rw [layoutOwner?, hfind, hfind, Option.map_map, Option.map_map]
  cases ns.classes.zipIdx.find? (·.1.name.native == name) <;> rfl

theorem SameOwners.ownerOf_eq (h : ns.SameOwners placed) (record : Record) (owner : String) :
    placed.ownerOf record owner = ns.ownerOf record owner := by
  simp only [ownerOf, layoutOwner?_eq, h.key, h.classes, h.interfaces]

/-- The slot that a record names, if it is the layout of a class or interface. -/
def slot? (ns : Namespace) (record : Record) : Option LayoutSlot :=
  record.layoutOf.bind fun name => (ns.ownerOf record name).toOption.map fun (owner, _) =>
    ⟨owner, layoutKind record⟩

/-- A record as it is kept: under a nested name if it is a layout. -/
def kept (ns : Namespace) (record : Record) : Record :=
  match record.layoutOf.bind fun name => (ns.ownerOf record name).toOption with
  | some (_, ownerName) => renamed record ownerName (layoutKind record)
  | none => record

theorem SameOwners.slot?_eq (h : ns.SameOwners placed) : placed.slot? = ns.slot? := by
  funext record
  simp only [slot?, h.ownerOf_eq]

theorem SameOwners.kept_eq (h : ns.SameOwners placed) : placed.kept = ns.kept := by
  funext record
  simp only [kept, h.ownerOf_eq]

/-- Whether a class or interface is there. -/
def HasOwner (ns : Namespace) : LayoutOwner → Prop
  | .classType i => i < ns.classes.length
  | .interfaceType i => i < ns.interfaces.length

theorem hasOwner_of_layoutOwner? {name : String} {owner : LayoutOwner} {ownerName : SymbolName}
    (h : ns.layoutOwner? name = some (owner, ownerName)) : ns.HasOwner owner := by
  rw [layoutOwner?_eq, Option.or_eq_some_iff] at h
  have hlt : ∀ {names : List SymbolName} {found : SymbolName} {i : Nat},
      names.zipIdx.find? (·.1.native == name) = some (found, i) → i < names.length := by
    intro names found i hfound
    obtain ⟨hi, -⟩ := List.getElem?_eq_some_iff.mp
      (List.mk_mem_zipIdx_iff_getElem?.mp (List.mem_of_find?_eq_some hfound))
    exact hi
  rcases h with h | ⟨-, h⟩
  · obtain ⟨⟨found, i⟩, hfound, heq⟩ := Option.map_eq_some_iff.mp h
    cases heq
    rw [HasOwner, ← List.length_map]
    exact hlt hfound
  · obtain ⟨⟨found, i⟩, hfound, heq⟩ := Option.map_eq_some_iff.mp h
    cases heq
    rw [HasOwner, ← List.length_map]
    exact hlt hfound

theorem layoutOwner?_of_ownerOf {name : String} {owner : LayoutOwner × SymbolName}
    (h : ns.ownerOf record name = .ok owner) : ns.layoutOwner? (splitQualified name).2 = some owner := by
  unfold ownerOf at h
  dsimp only at h
  split at h
  · cases h
  · split at h
    · next found hfound =>
        cases h
        exact hfound
    · cases h

theorem exists_layoutOwner?_iff {name : String} : (∃ owner, ns.layoutOwner? name = some owner) ↔
    (∃ c ∈ ns.classes, c.name.native = name) ∨ ∃ c ∈ ns.interfaces, c.name.native = name := by
  have hfind : ∀ {α : Type} (l : List α) (f : α → SymbolName),
      ((l.map f).zipIdx.find? (·.1.native == name)).isSome ↔ ∃ a ∈ l, (f a).native = name := by
    intro α l f
    rw [List.find?_isSome]
    constructor
    · rintro ⟨⟨found, i⟩, hmem, hname⟩
      obtain ⟨a, ha, rfl⟩ := List.mem_map.mp (List.mem_of_getElem? (List.mk_mem_zipIdx_iff_getElem?.mp hmem))
      exact ⟨a, ha, eq_of_beq hname⟩
    · rintro ⟨a, ha, hname⟩
      obtain ⟨i, hi⟩ := List.getElem?_of_mem (List.mem_map_of_mem (f := f) ha)
      exact ⟨(f a, i), List.mk_mem_zipIdx_iff_getElem?.mpr hi, beq_iff_eq.mpr hname⟩
  rw [← Option.isSome_iff_exists, layoutOwner?_eq, Option.isSome_or, Option.isSome_map, Option.isSome_map,
    Bool.or_eq_true, hfind, hfind]

/-- An owner is named by the name of a class or interface, unqualified or qualified by the namespace. -/
theorem exists_ownerOf_iff {owner : String} : (∃ found, ns.ownerOf record owner = .ok found) ↔
    (∀ qualifier ∈ (splitQualified owner).1, qualifier = ns.key.name) ∧
    ∃ found, ns.layoutOwner? (splitQualified owner).2 = some found := by
  unfold ownerOf
  dsimp only
  split
  · next hqualifier =>
      refine iff_of_false (by rintro ⟨_, ⟨⟩⟩) fun ⟨hown, _⟩ => ?_
      obtain ⟨qualifier, hmem, hne⟩ := (Option.any_eq_true _ _).mp hqualifier
      simp [hown qualifier hmem] at hne
  · next hqualifier =>
      have hown : ∀ qualifier ∈ (splitQualified owner).1, qualifier = ns.key.name := by
        intro qualifier hmem
        by_contra hne
        exact hqualifier ((Option.any_eq_true _ _).mpr ⟨qualifier, hmem, by simpa using hne⟩)
      rw [iff_true_intro hown, true_and]
      cases ns.layoutOwner? (splitQualified owner).2 with
      | none => exact iff_of_false (by rintro ⟨_, ⟨⟩⟩) (by rintro ⟨_, ⟨⟩⟩)
      | some found => exact iff_of_true ⟨found, rfl⟩ ⟨found, rfl⟩

/-! ### Attaching -/

theorem layoutAt?_eq_none (hclasses : ∀ c ∈ ns.classes, c.layouts = {})
    (hinterfaces : ∀ c ∈ ns.interfaces, c.layouts = {}) (slot : LayoutSlot) : ns.layoutAt? slot = none := by
  have hempty : ∀ {α : Type} {l : List α} {layouts : α → Layouts} (i : Nat), (∀ a ∈ l, layouts a = {}) →
      (l[i]?.bind fun a => (layouts a).get? slot.kind) = none := by
    intro α l layouts i hl
    cases ha : l[i]? with
    | none => rfl
    | some a =>
        rw [Option.bind_some, hl a (List.mem_of_getElem? ha)]
        cases slot.kind <;> rfl
  obtain ⟨i | i, kind⟩ := slot
  · exact hempty i hclasses
  · exact hempty i hinterfaces

theorem map_modify {α β : Type} (l : List α) (i : Nat) {f : α → α} {name : α → β}
    (hname : ∀ a, name (f a) = name a) : (l.modify i f).map name = l.map name := by
  refine List.ext_getElem? fun j => ?_
  rw [List.getElem?_map, List.getElem?_map, List.getElem?_modify]
  cases l[j]? with
  | none => rfl
  | some a =>
      refine congrArg some ?_
      split
      · exact hname a
      · rfl

theorem sameOwners_attach (owner : LayoutOwner) (kind : LayoutKind) (record : Record) :
    ns.SameOwners (ns.attach owner kind record) := by
  unfold attach
  cases owner with
  | classType i => dsimp only; split <;> exact ⟨rfl, map_modify _ _ fun _ => rfl, rfl⟩
  | interfaceType i => dsimp only; split <;> exact ⟨rfl, rfl, map_modify _ _ fun _ => rfl⟩

theorem layoutAt?_attach {owner : LayoutOwner} (howner : ns.HasOwner owner) (kind : LayoutKind)
    (record : Record) (slot : LayoutSlot) :
    (ns.attach owner kind record).layoutAt? slot =
      if slot = ⟨owner, kind⟩ then some record else ns.layoutAt? slot := by
  have hput : ∀ {α : Type} {l : List α} {i : Nat} (j : Nat) (f : α → α) (layouts : α → Layouts),
      (∀ a, layouts (f a) = (layouts a).put record kind) → i < l.length →
      (l.modify i f)[j]?.bind (fun a => (layouts a).get? slot.kind) =
        if j = i ∧ slot.kind = kind then some record else l[j]?.bind fun a => (layouts a).get? slot.kind := by
    intro α l i j f layouts hf hi
    rw [List.getElem?_modify]
    by_cases hj : j = i
    · subst hj
      rw [List.getElem?_eq_getElem hi]
      simp only [Option.map_eq_map, Option.map_some, Option.bind_some, if_pos, hf, Layouts.get?_put, true_and]
    · have hij : ¬i = j := fun h => hj h.symm
      simp [hij, hj]
  obtain ⟨other, otherKind⟩ := slot
  unfold attach
  cases owner with
  | classType i =>
      dsimp only
      rw [apply_ite fun ns : Namespace => ns.layoutAt? ⟨other, otherKind⟩]
      refine (ite_self _).trans ?_
      cases other with
      | classType j => simpa [layoutAt?] using hput j _ Class.layouts (fun _ => rfl) howner
      | interfaceType j => simp [layoutAt?]
  | interfaceType i =>
      dsimp only
      rw [apply_ite fun ns : Namespace => ns.layoutAt? ⟨other, otherKind⟩]
      refine (ite_self _).trans ?_
      cases other with
      | classType j => simp [layoutAt?]
      | interfaceType j => simpa [layoutAt?] using hput j _ Interface.layouts (fun _ => rfl) howner

theorem layoutSlots_attach (owner : LayoutOwner) (kind : LayoutKind) (record : Record) :
    (ns.attach owner kind record).layoutSlots =
      if ns.layoutSlots.contains ⟨owner, kind⟩ then ns.layoutSlots
      else ns.layoutSlots ++ [⟨owner, kind⟩] := by
  unfold attach
  cases owner <;> dsimp only <;> split <;> rfl

theorem records_attach (owner : LayoutOwner) (kind : LayoutKind) (record : Record) :
    (ns.attach owner kind record).records = ns.records := by
  unfold attach
  cases owner <;> dsimp only <;> split <;> rfl

/-! ### Placing -/

/-- What has become of some records, placed one after another. -/
structure Keeps (ns : Namespace) (records : List Record) : Prop where
  /-- Records that name no owner stay, in their order. -/
  visible : ns.records = records.filter (·.layoutOf.isNone)
  /-- Each of the others names a slot. -/
  named : ∀ record ∈ records, record.layoutOf.isSome → (ns.slot? record).isSome
  /-- A slot has the last record that names it. -/
  attached : ∀ slot, ns.layoutAt? slot =
    (records.filter fun record => ns.slot? record = some slot).getLast?.map ns.kept
  /-- The slots that are named, in the order in which they were first named. -/
  slots : ns.layoutSlots = (records.filterMap ns.slot?).eraseDups

theorem place_cases (h : ns.place record = .ok placed) :
    (record.layoutOf = none ∧ ns.slot? record = none ∧
      placed = { ns with records := ns.records ++ [record] }) ∨
    ∃ slot, record.layoutOf.isSome ∧ ns.slot? record = some slot ∧ ns.HasOwner slot.owner ∧
      placed = ns.attach slot.owner slot.kind (ns.kept record) := by
  rw [place] at h
  split at h
  · next hlayout =>
      cases h
      exact .inl ⟨hlayout, by rw [slot?, hlayout]; rfl, rfl⟩
  · next name hlayout =>
      obtain ⟨⟨owner, ownerName⟩, howner, h⟩ := bind_eq_ok.mp h
      cases h
      refine .inr ⟨⟨owner, layoutKind record⟩, by rw [hlayout]; rfl, ?_,
        hasOwner_of_layoutOwner? (layoutOwner?_of_ownerOf howner), ?_⟩
      · rw [slot?, hlayout, Option.bind_some, howner]
        rfl
      · rw [kept, hlayout, Option.bind_some, howner]
        rfl

theorem sameOwners_place (h : ns.place record = .ok placed) : ns.SameOwners placed := by
  rcases place_cases h with ⟨-, -, rfl⟩ | ⟨slot, -, -, -, rfl⟩
  · exact ⟨rfl, rfl, rfl⟩
  · exact sameOwners_attach slot.owner slot.kind _

/-- A record that names no owner stays. -/
theorem Keeps.stay {records : List Record} (hns : ns.Keeps records) (hlayout : record.layoutOf = none)
    (hslot : ns.slot? record = none) :
    ({ ns with records := ns.records ++ [record] } : Namespace).Keeps (records ++ [record]) := by
  have hsame : ns.SameOwners { ns with records := ns.records ++ [record] } := ⟨rfl, rfl, rfl⟩
  constructor
  · rw [List.filter_append, ← hns.visible]
    simp [hlayout]
  · intro other hother hsome
    rw [hsame.slot?_eq]
    rcases List.mem_append.mp hother with hother | hother
    · exact hns.named other hother hsome
    · obtain rfl := List.mem_singleton.mp hother
      rw [hlayout] at hsome
      cases hsome
  · intro slot
    refine (hns.attached slot).trans ?_
    rw [hsame.slot?_eq, hsame.kept_eq, List.filter_append]
    simp [hslot]
  · rw [hsame.slot?_eq, List.filterMap_append]
    simpa [hslot] using hns.slots

/-- A record that names a slot becomes the one that the slot has. -/
theorem Keeps.attach {records : List Record} (hns : ns.Keeps records) {slot : LayoutSlot}
    (hlayout : record.layoutOf.isSome) (hslot : ns.slot? record = some slot) (howner : ns.HasOwner slot.owner) :
    (ns.attach slot.owner slot.kind (ns.kept record)).Keeps (records ++ [record]) := by
  have hsame := ns.sameOwners_attach slot.owner slot.kind (ns.kept record)
  constructor
  · rw [records_attach, List.filter_append, ← hns.visible]
    simp [Option.isSome_iff_ne_none.mp hlayout]
  · intro other hother hsome
    rw [hsame.slot?_eq]
    rcases List.mem_append.mp hother with hother | hother
    · exact hns.named other hother hsome
    · obtain rfl := List.mem_singleton.mp hother
      rw [hslot]
      rfl
  · intro other
    rw [layoutAt?_attach howner, hsame.slot?_eq, hsame.kept_eq, List.filter_append]
    by_cases hother : other = slot
    · subst hother
      simp [hslot]
    · have hne : ¬slot = other := fun h => hother h.symm
      rw [if_neg hother, hns.attached]
      simp [hslot, hne]
  -- the slot is new, or it stands where it was first named
  · have hcontains : ns.layoutSlots.contains slot ↔ slot ∈ records.filterMap ns.slot? := by
      rw [hns.slots, List.contains_iff_mem, List.mem_eraseDups]
    rw [layoutSlots_attach, hsame.slot?_eq, List.filterMap_append, List.filterMap_cons, hslot,
      List.eraseDups_append, ← hns.slots]
    by_cases hmem : slot ∈ records.filterMap ns.slot?
    · have hremoved : [slot].removeAll (records.filterMap ns.slot?) = [] := by
        simpa [List.removeAll] using hmem
      rw [if_pos (hcontains.mpr hmem), List.filterMap_nil, hremoved]
      exact (List.append_nil _).symm
    · have hremoved : [slot].removeAll (records.filterMap ns.slot?) = [slot] := by
        simpa [List.removeAll] using hmem
      rw [if_neg (mt hcontains.mp hmem), List.filterMap_nil, hremoved]
      rfl

theorem Keeps.place {records : List Record} (hns : ns.Keeps records) (h : ns.place record = .ok placed) :
    placed.Keeps (records ++ [record]) := by
  rcases place_cases h with ⟨hlayout, hslot, rfl⟩ | ⟨slot, hlayout, hslot, howner, rfl⟩
  · exact hns.stay hlayout hslot
  · exact hns.attach hlayout hslot howner

/-- Placing records one after another, each of them names an owner that is there. -/
theorem keeps_foldlM {records : List Record} (hrecords : ns.records = []) (hslots : ns.layoutSlots = [])
    (hlayouts : ∀ slot, ns.layoutAt? slot = none) (h : records.foldlM Namespace.place ns = .ok placed) :
    placed.Keeps records := by
  have hrun : ∀ {before after : List Record} {ns : Namespace}, ns.Keeps before →
      after.foldlM Namespace.place ns = .ok placed → placed.Keeps (before ++ after) := by
    intro before after
    induction after generalizing before with
    | nil =>
        rintro ns hns ⟨⟩
        rwa [List.append_nil]
    | cons record after ih =>
        intro ns hns h
        rw [List.foldlM_cons] at h
        obtain ⟨next, hnext, h⟩ := bind_eq_ok.mp h
        have hkeeps := ih (hns.place hnext) h
        rwa [List.append_assoc] at hkeeps
  have hnothing : ns.Keeps [] :=
    ⟨hrecords, fun _ h => absurd h List.not_mem_nil, fun slot => hlayouts slot, hslots⟩
  exact hrun hnothing h

/-- A record can be placed exactly if the owner that it may name is there. -/
theorem exists_place_iff : (∃ placed, ns.place record = .ok placed) ↔
    ∀ owner ∈ record.layoutOf, ∃ found, ns.ownerOf record owner = .ok found := by
  rw [place]
  cases record.layoutOf with
  | none => exact iff_of_true ⟨_, rfl⟩ fun _ h => by cases h
  | some owner =>
      simp only [Option.mem_some_iff, forall_eq']
      constructor
      · rintro ⟨placed, h⟩
        obtain ⟨found, hfound, -⟩ := bind_eq_ok.mp h
        exact ⟨found, hfound⟩
      · rintro ⟨found, hfound⟩
        exact ⟨_, bind_eq_ok.mpr ⟨found, hfound, rfl⟩⟩

/-- Records can be placed exactly if those that name an owner name one that is there. -/
theorem exists_foldlM_place_iff {records : List Record} :
    (∃ placed, records.foldlM Namespace.place ns = .ok placed) ↔
      ∀ record ∈ records, ∀ owner ∈ record.layoutOf, ∃ found, ns.ownerOf record owner = .ok found := by
  induction records generalizing ns with
  | nil => exact iff_of_true ⟨ns, rfl⟩ fun _ h => absurd h List.not_mem_nil
  | cons record records ih =>
      rw [List.forall_mem_cons, ← exists_place_iff, List.foldlM_cons]
      constructor
      · rintro ⟨placed, h⟩
        obtain ⟨next, hnext, h⟩ := bind_eq_ok.mp h
        have hrest := ih.mp ⟨placed, h⟩
        simp only [(sameOwners_place hnext).ownerOf_eq] at hrest
        exact ⟨⟨next, hnext⟩, hrest⟩
      · rintro ⟨⟨next, hnext⟩, hrest⟩
        simp only [← (sameOwners_place hnext).ownerOf_eq] at hrest
        obtain ⟨placed, h⟩ := ih.mpr hrest
        exact ⟨placed, bind_eq_ok.mpr ⟨next, hnext, h⟩⟩

namespace Keeps

variable {records before after : List Record} (hns : ns.Keeps records)

theorem slot?_eq_none (h : record.layoutOf = none) : ns.slot? record = none := by
  rw [slot?, h, Option.bind_none]

theorem kept_eq_self (h : record.layoutOf = none) : ns.kept record = record := by
  rw [kept, h, Option.bind_none]

theorem name_kept (ns : Namespace) (record : Record) : (ns.kept record).name.native = record.name.native := by
  rw [kept]
  split <;> rfl

theorem kept_spec (ns : Namespace) (record : Record) : (ns.kept record).ctype = record.ctype ∧
    (ns.kept record).fields = record.fields ∧ (ns.kept record).callables = record.callables := by
  rw [kept]
  split <;> exact ⟨rfl, rfl, rfl⟩

include hns

/-- No record is counted twice, and none is missed unless two of them name one slot. -/
theorem count : ns.records.length + (records.filterMap ns.slot?).length = records.length := by
  rw [hns.visible]
  have hnamed := hns.named
  clear hns
  induction records with
  | nil => rfl
  | cons record records ih =>
      obtain ⟨hrecord, hrecords⟩ := List.forall_mem_cons.mp hnamed
      have ih := ih hrecords
      cases hlayout : record.layoutOf with
      | none =>
          rw [List.filter_cons_of_pos (by rw [hlayout]; rfl), List.filterMap_cons, slot?_eq_none hlayout,
            List.length_cons, List.length_cons, ← ih]
          exact Nat.add_right_comm _ _ _
      | some owner =>
          obtain ⟨slot, hslot⟩ := Option.isSome_iff_exists.mp (hrecord (by rw [hlayout]; rfl))
          rw [List.filter_cons_of_neg (by rw [hlayout]; exact Bool.false_ne_true), List.filterMap_cons, hslot,
            List.length_cons, List.length_cons, ← ih]
          exact (Nat.add_assoc _ _ _).symm

theorem length_layoutSlots_eq_iff :
    ns.layoutSlots.length = (records.filterMap ns.slot?).length ↔ (records.filterMap ns.slot?).Nodup := by
  rw [hns.slots]
  have hsublist := StackSearch.eraseDups_sublist (records.filterMap ns.slot?)
  have hnodup := Reach.nodup_eraseDups (records.filterMap ns.slot?)
  constructor
  · intro hlength
    rwa [hsublist.eq_of_length hlength] at hnodup
  · intro hslots
    refine ((List.perm_ext_iff_of_nodup hnodup hslots).mpr fun slot => ?_).length_eq
    exact List.mem_eraseDups

/-- A record that is not replaced by a later one is in the slot that it names. -/
theorem layoutAt?_eq (hrecords : records = before ++ record :: after) {slot : LayoutSlot}
    (hslot : ns.slot? record = some slot) (hlast : ∀ later ∈ after, ns.slot? later ≠ some slot) :
    ns.layoutAt? slot = some (ns.kept record) := by
  have hafter : (after.filter fun later => ns.slot? later = some slot) = [] := by
    simpa using hlast
  rw [hns.attached, hrecords, List.filter_append, List.filter_cons_of_pos (by simpa using hslot), hafter,
    List.getLast?_append]
  rfl

/-- Every layout is a record that names its slot. -/
theorem exists_of_layoutAt? {slot : LayoutSlot} {layout : Record} (h : ns.layoutAt? slot = some layout) :
    ∃ record ∈ records, ns.slot? record = some slot ∧ layout = ns.kept record := by
  rw [hns.attached] at h
  obtain ⟨record, hrecord, rfl⟩ := Option.map_eq_some_iff.mp h
  obtain ⟨hmem, hslot⟩ := List.mem_filter.mp (List.mem_of_getLast? hrecord)
  exact ⟨record, hmem, of_decide_eq_true hslot, rfl⟩

end Keeps

/-! ### Looking up -/

/-- The record that a holder is. -/
def recordOf? (ns : Namespace) : Holder → Option Record
  | .record i => ns.records[i]?
  | .layout slot => ns.layoutAt? slot
  | _ => none

/-- The holder at which a record that was looked up is kept. -/
def holderAt? (ns : Namespace) : SymbolKind × Nat → Option Holder
  | (.record, i) => some (.record i)
  | (.classStruct, i) => ns.layoutSlots[i]?.map .layout
  | _ => none

/-- No later record takes the slot of a record. -/
def Lasting (ns : Namespace) (record : Record) (later : List Record) : Prop :=
  ∀ slot, ns.slot? record = some slot → ∀ other ∈ later, ns.slot? other ≠ some slot

/-- Neither another record nor another type symbol has the name of a record. -/
structure OwnName (ns : Namespace) (record : Record) (others : List Record) : Prop where
  records : ∀ other ∈ others, other.name.native ≠ record.name.native
  symbols : ∀ kind, kind ≠ .record → kind ≠ .classStruct → ∀ symbol, some symbol ∈ ns.namesOf kind →
    symbol.native ≠ record.name.native

/-- A record is found by its name, as it is kept, and is emitted with all its fields and callables. -/
def Reaches (ns : Namespace) (record : Record) : Prop :=
  ∃ address holder, ns.lookup record.name.native = some address ∧ ns.holderAt? address = some holder ∧
    ns.recordOf? holder = some (ns.kept record) ∧
    ∀ e : Emitter,
      (∃ identifier folder, ⟨identifier, .type holder,
        .layout (ns.kept record).name record.ctype record.fields folder⟩ ∈ e.items ns) ∧
      ∀ kind i c, (record.callables.ofKind kind)[i]? = some c →
        ∃ identifier owner, ⟨identifier, .callable holder kind i, .callable owner c⟩ ∈ e.items ns

theorem getElem?_of_position? {kind : SymbolKind} {name : String} {i : Nat}
    (h : ns.position? kind name = some i) :
    ∃ symbol, (ns.namesOf kind)[i]? = some (some symbol) ∧ symbol.native = name := by
  obtain ⟨hi, hfound, -⟩ := List.findIdx?_eq_some_iff_getElem.mp h
  cases hsymbol : (ns.namesOf kind)[i] with
  | none =>
      rw [hsymbol] at hfound
      cases hfound
  | some symbol =>
      rw [hsymbol] at hfound
      exact ⟨symbol, by rw [List.getElem?_eq_getElem hi, hsymbol], by simpa using hfound⟩

theorem position?_eq_none {kind : SymbolKind} {name : String}
    (h : ∀ symbol, some symbol ∈ ns.namesOf kind → symbol.native ≠ name) : ns.position? kind name = none := by
  refine List.findIdx?_eq_none_iff.mpr fun symbol? hmem => ?_
  cases symbol? with
  | none => rfl
  | some symbol => simpa using h symbol hmem

theorem exists_position? {kind : SymbolKind} {symbol : SymbolName} (h : some symbol ∈ ns.namesOf kind) :
    ∃ i, ns.position? kind symbol.native = some i := by
  refine Option.isSome_iff_exists.mp ?_
  rw [position?, List.findIdx?_isSome, List.any_eq_true]
  exact ⟨_, h, by simp⟩

/-- A name that only one kind has is found there. -/
theorem lookup_eq {kind : SymbolKind} {name : String} {i : Nat} (h : ns.position? kind name = some i)
    (hothers : ∀ other, other ≠ kind → ns.position? other name = none) : ns.lookup name = some (kind, i) := by
  cases kind <;> simp [lookup, searchOrder, h, hothers]

namespace Keeps

variable {records before after : List Record} (hns : ns.Keeps records)

section Named

variable (hsame : ∀ other ∈ records, other.name.native = record.name.native → other = record)

include hns hsame

theorem eq_of_mem_records {other : Record} (hother : other ∈ ns.records)
    (hname : other.name.native = record.name.native) : other = record ∧ record.layoutOf = none := by
  rw [hns.visible] at hother
  obtain ⟨hmem, hlayout⟩ := List.mem_filter.mp hother
  obtain rfl := hsame other hmem hname
  exact ⟨rfl, Option.isNone_iff_eq_none.mp hlayout⟩

theorem eq_of_layoutAt? {slot : LayoutSlot} {layout : Record} (hlayout : ns.layoutAt? slot = some layout)
    (hname : layout.name.native = record.name.native) : ns.slot? record = some slot := by
  obtain ⟨other, hother, hslot, rfl⟩ := hns.exists_of_layoutAt? hlayout
  rw [name_kept] at hname
  rwa [hsame other hother hname] at hslot

variable (hothers : ∀ kind, kind ≠ .record → kind ≠ .classStruct → ∀ symbol, some symbol ∈ ns.namesOf kind →
  symbol.native ≠ record.name.native)

include hothers

theorem lookup_of_visible (hlayout : record.layoutOf = none) (hrecord : record ∈ ns.records) :
    ∃ i, ns.lookup record.name.native = some (.record, i) ∧ ns.records[i]? = some record := by
  obtain ⟨i, hi⟩ : ∃ i, ns.position? .record record.name.native = some i :=
    exists_position? (List.mem_map_of_mem hrecord)
  refine ⟨i, lookup_eq hi fun kind hkind => position?_eq_none fun symbol hsymbol hname => ?_, ?_⟩
  · by_cases hclass : kind = .classStruct
    · subst hclass
      obtain ⟨slot, -, hmap⟩ := List.mem_map.mp hsymbol
      obtain ⟨layout, hlayoutAt, rfl⟩ := Option.map_eq_some_iff.mp hmap
      have hslot := hns.eq_of_layoutAt? hsame hlayoutAt hname
      rw [slot?_eq_none hlayout] at hslot
      cases hslot
    · exact hothers kind hkind hclass symbol hsymbol hname
  · obtain ⟨symbol, hsymbol, hname⟩ := getElem?_of_position? hi
    rw [namesOf, List.getElem?_map] at hsymbol
    obtain ⟨other, hother, heq⟩ := Option.map_eq_some_iff.mp hsymbol
    cases heq
    rwa [(hns.eq_of_mem_records hsame (List.mem_of_getElem? hother) hname).1] at hother

theorem lookup_of_attached {slot : LayoutSlot} (hslot : ns.slot? record = some slot)
    (hattached : ns.layoutAt? slot = some (ns.kept record)) (hmem : slot ∈ ns.layoutSlots) :
    ∃ i, ns.lookup record.name.native = some (.classStruct, i) ∧ ns.layoutSlots[i]? = some slot := by
  obtain ⟨i, hi⟩ : ∃ i, ns.position? .classStruct (ns.kept record).name.native = some i := by
    refine exists_position? (List.mem_map.mpr ⟨slot, hmem, ?_⟩)
    rw [hattached, Option.map_some]
  rw [name_kept] at hi
  refine ⟨i, lookup_eq hi fun kind hkind => position?_eq_none fun symbol hsymbol hname => ?_, ?_⟩
  · by_cases hrecord : kind = .record
    · subst hrecord
      obtain ⟨other, hother, heq⟩ := List.mem_map.mp hsymbol
      cases heq
      rw [slot?_eq_none (hns.eq_of_mem_records hsame hother hname).2] at hslot
      cases hslot
    · exact hothers kind hrecord hkind symbol hsymbol hname
  · obtain ⟨symbol, hsymbol, hname⟩ := getElem?_of_position? hi
    rw [namesOf, List.getElem?_map] at hsymbol
    obtain ⟨found, hfound, hmap⟩ := Option.map_eq_some_iff.mp hsymbol
    obtain ⟨layout, hlayoutAt, rfl⟩ := Option.map_eq_some_iff.mp hmap
    have hslot' := hns.eq_of_layoutAt? hsame hlayoutAt hname
    rw [hfound, ← hslot', hslot]

end Named

include hns

/-- A record that no later one replaces is found by its name, if nothing else has that name. -/
theorem exists_lookup (hrecords : records = before ++ record :: after) (hlast : ns.Lasting record after)
    (hname : ns.OwnName record (before ++ after)) :
    ∃ address holder, ns.lookup record.name.native = some address ∧ ns.holderAt? address = some holder ∧
      ns.recordOf? holder = some (ns.kept record) := by
  have hsame : ∀ other ∈ records, other.name.native = record.name.native → other = record := by
    intro other hother heq
    rw [hrecords, List.mem_append, List.mem_cons] at hother
    rcases hother with hother | rfl | hother
    · exact absurd heq (hname.records other (List.mem_append_left _ hother))
    · rfl
    · exact absurd heq (hname.records other (List.mem_append_right _ hother))
  have hmem : record ∈ records := by
    rw [hrecords]
    exact List.mem_append_right _ List.mem_cons_self
  cases hlayout : record.layoutOf with
  | none =>
      have hrecord : record ∈ ns.records := by
        rw [hns.visible]
        exact List.mem_filter.mpr ⟨hmem, by rw [hlayout]; rfl⟩
      obtain ⟨i, hlookup, hfound⟩ := hns.lookup_of_visible hsame hname.symbols hlayout hrecord
      exact ⟨_, .record i, hlookup, rfl, by rw [recordOf?, hfound, kept_eq_self hlayout]⟩
  | some owner =>
      obtain ⟨slot, hslot⟩ := Option.isSome_iff_exists.mp (hns.named record hmem (by rw [hlayout]; rfl))
      have hattached := hns.layoutAt?_eq hrecords hslot (hlast slot hslot)
      have hslots : slot ∈ ns.layoutSlots := by
        rw [hns.slots, List.mem_eraseDups]
        exact List.mem_filterMap.mpr ⟨record, hmem, hslot⟩
      obtain ⟨i, hlookup, hfound⟩ := hns.lookup_of_attached hsame hname.symbols hslot hattached hslots
      exact ⟨_, .layout slot, hlookup, by rw [holderAt?, hfound, Option.map_some], hattached⟩

end Keeps

end Namespace

/-- A record that is kept is emitted, and its callables are. -/
theorem Emitter.mem_items_of_recordOf? (e : Emitter) {ns : Namespace} {holder : Holder} {record : Record}
    (h : ns.recordOf? holder = some record) :
    (∃ identifier folder,
      ⟨identifier, .type holder, .layout record.name record.ctype record.fields folder⟩ ∈ e.items ns) ∧
    ∀ kind i c, (record.callables.ofKind kind)[i]? = some c →
      ⟨e.identifier (some record.name) c.name.native, .callable holder kind i,
        .callable (some record.name) c⟩ ∈ e.items ns := by
  have hitem : ∀ {identifier place work}, e.workAt? ns place = some (identifier, work) →
      ⟨identifier, place, work⟩ ∈ e.items ns :=
    fun hwork => ((e.covers_items ns).mem_iff _).mpr ⟨trivial, hwork⟩
  have hholder : (∃ identifier folder,
      e.typeWork? ns holder = some (identifier, .layout record.name record.ctype record.fields folder)) ∧
      ns.ownerName? holder = some record.name ∧
      ∀ kind, ns.callablesOf kind holder = record.callables.ofKind kind := by
    cases holder with
    | record i =>
        have hget : ns.records[i]? = some record := h
        simp [typeWork?, Namespace.ownerName?, Namespace.callablesOf, hget]
    | layout slot =>
        have hget : ns.layoutAt? slot = some record := h
        simp [typeWork?, Namespace.ownerName?, Namespace.callablesOf, hget]
    | _ => cases h
  obtain ⟨⟨identifier, folder, htype⟩, hname, hcallables⟩ := hholder
  refine ⟨⟨identifier, folder, hitem htype⟩, fun kind i c hc => hitem ?_⟩
  rw [workAt?, hcallables, hc, hname, Option.map_some]

theorem Namespace.Keeps.reaches {ns : Namespace} {record : Record} {records before after : List Record}
    (hns : ns.Keeps records) (hrecords : records = before ++ record :: after)
    (hlast : ns.Lasting record after) (hname : ns.OwnName record (before ++ after)) :
    ns.Reaches record := by
  obtain ⟨address, holder, hlookup, hholder, hrecord⟩ := hns.exists_lookup hrecords hlast hname
  refine ⟨address, holder, hlookup, hholder, hrecord, fun e => ?_⟩
  obtain ⟨hctype, hfields, hcallables⟩ := kept_spec ns record
  obtain ⟨hlayout, hmembers⟩ := e.mem_items_of_recordOf? hrecord
  rw [hctype, hfields] at hlayout
  rw [hcallables] at hmembers
  exact ⟨hlayout, fun kind i c hc => ⟨_, _, hmembers kind i c hc⟩⟩

/-! ### Descriptions -/

theorem require_eq_ok {value : Option String} {declaration field given : String} :
    require value declaration field = .ok given ↔ value = some given := by
  cases value <;> simp [require]

theorem Record.ofDescription_spec {key : NamespaceKey} {d : Description.Record} {record : Record}
    (h : (Record.ofDescription key d).outcome = .ok record) :
    d.name = some record.name.native ∧ record.layoutOf = d.typeStructFor := by
  simp only [Record.ofDescription, Logged.outcome_bind, Logged.outcome_ofExcept, bind_eq_ok,
    Logged.outcome_pure] at h
  obtain ⟨name, hname, callables, -, fields, -, h⟩ := h
  cases h
  exact ⟨require_eq_ok.mp hname, rfl⟩

theorem Class.ofDescription_spec {key : NamespaceKey} {d : Description.Class} {c : Class}
    (h : (Class.ofDescription key d).outcome = .ok c) : d.name = some c.name.native ∧ c.layouts = {} := by
  simp only [Class.ofDescription, Logged.outcome_bind, Logged.outcome_ofExcept, bind_eq_ok,
    Logged.outcome_pure] at h
  obtain ⟨name, hname, callables, -, fields, -, signals, -, h⟩ := h
  cases h
  exact ⟨require_eq_ok.mp hname, rfl⟩

theorem Interface.ofDescription_spec {key : NamespaceKey} {d : Description.Interface} {c : Interface}
    (h : (Interface.ofDescription key d).outcome = .ok c) : d.name = some c.name.native ∧ c.layouts = {} := by
  simp only [Interface.ofDescription, Logged.outcome_bind, Logged.outcome_ofExcept, bind_eq_ok,
    Logged.outcome_pure] at h
  obtain ⟨name, hname, callables, -, signals, -, h⟩ := h
  cases h
  exact ⟨require_eq_ok.mp hname, rfl⟩

theorem Namespace.keeps_ofDescription {key : NamespaceKey} {d : Description.Namespace} {ns : Namespace}
    (h : (Namespace.ofDescription key d).outcome = .ok ns) :
    ∃ records, List.Forall₂ (fun described record =>
        (Record.ofDescription key described).outcome = .ok record) d.records records ∧
      ns.Keeps records := by
  simp only [Namespace.ofDescription, Logged.outcome_bind, Logged.outcome_ofExcept, Logged.outcome_forEach,
    bind_eq_ok, Logged.outcome_note, Logged.outcome_pure] at h
  obtain ⟨aliases, -, callbacks, -, enumerations, -, bitfields, -, interfaces, hinterfaces, records, hrecords,
    classes, hclasses, unions, -, functions, -, constants, -, attached, hattached, -, -, h⟩ := h
  cases h
  have hclass : ∀ c ∈ classes, c.layouts = {} := by
    intro c hc
    obtain ⟨described, -, hbuilt⟩ := exists_mem_left (mapM_eq_ok.mp hclasses) hc
    exact (Class.ofDescription_spec hbuilt).2
  have hinterface : ∀ c ∈ interfaces, c.layouts = {} := by
    intro c hc
    obtain ⟨described, -, hbuilt⟩ := exists_mem_left (mapM_eq_ok.mp hinterfaces) hc
    exact (Interface.ofDescription_spec hbuilt).2
  exact ⟨records, mapM_eq_ok.mp hrecords,
    keeps_foldlM rfl rfl (fun slot => layoutAt?_eq_none hclass hinterface slot) hattached⟩

/-- No record of a description is lost, unless a later one takes its slot. Records that are no layouts stay,
each of the others names one slot of one class or interface, and a slot has the last record that names it. So
the records and the slots are as many as the records that are described exactly if no two of them name one
slot. A record that no later one replaces is found by its name, if nothing else has that name, and is emitted
with all its callables. -/
theorem records_kept {d : Description} {r : Repository} (h : (Repository.ofDescription d).outcome = .ok r) :
    ∃ records, List.Forall₂ (fun described record =>
        (Record.ofDescription r.key described).outcome = .ok record ∧
        described.name = some record.name.native ∧ record.layoutOf = described.typeStructFor)
      d.namespaceInfo.records records ∧
    r.content.Keeps records ∧
    (r.content.records.length + r.content.layoutSlots.length = records.length ↔
      (records.filterMap r.content.slot?).Nodup) ∧
    ∀ before record after, records = before ++ record :: after → r.content.Lasting record after →
      (∀ slot, r.content.slot? record = some slot → r.content.layoutAt? slot = some (r.content.kept record)) ∧
      (r.content.OwnName record (before ++ after) → r.content.Reaches record) := by
  obtain ⟨entry, content, -, hcontent, rfl⟩ := Repository.ofDescription_eq_ok.mp h
  obtain ⟨records, hrecords, hkeeps⟩ := Namespace.keeps_ofDescription hcontent
  rw [Repository.key, Namespace.key_ofDescription hcontent]
  refine ⟨records, hrecords.imp fun described record hrecord => ⟨hrecord, Record.ofDescription_spec hrecord⟩,
    hkeeps, ?_, fun before record after hsplit hlast => ⟨fun slot hslot => ?_, fun hname => ?_⟩⟩
  · rw [← hkeeps.count, Nat.add_left_cancel_iff]
    exact hkeeps.length_layoutSlots_eq_iff
  · exact hkeeps.layoutAt?_eq hsplit hslot (hlast slot hslot)
  · exact hkeeps.reaches hsplit hlast hname

namespace Sample

def typeRecord (name : String) (owner : Option String) : Description.Record where
  name := some name
  typeStructFor := owner

/-- A namespace with one class. -/
def gtk (records : List Description.Record) : Description where
  namespaceInfo := {
    name := some "Gtk", version := some "3.0"
    classes := [{ name := some "Widget" }]
    records }

def widgetRecords : List Description.Record :=
  [typeRecord "WidgetClass" (some "Widget"), typeRecord "Requisition" none,
    typeRecord "WidgetClassPrivate" (some "Gtk.Widget")]

def widgetClass : Record := ⟨.pascal "WidgetClass", none, .publicLayout, some "Widget", {}, []⟩

def requisition : Record := ⟨.pascal "Requisition", none, .ref, none, {}, []⟩

def widgetClassPrivate : Record :=
  ⟨.pascal "WidgetClassPrivate", none, .privateLayout, some "Gtk.Widget", {}, []⟩

def gtkRepository : Repository where
  content := {
    key := ⟨"Gtk", "3.0"⟩
    classes := [{
      name := .pascal "Widget", ctype := none, parent := none, implements := []
      callables := {}, fields := [], signals := []
      layouts := {
        publicLayout := some { widgetClass with name := ⟨"WidgetClass", "Widget.Native.ClassStruct"⟩ }
        privateLayout := some
          { widgetClassPrivate with name := ⟨"WidgetClassPrivate", "Widget.Native.PrivateClassStruct"⟩ } } }]
    records := [requisition]
    layoutSlots := [⟨.classType 0, .publicLayout⟩, ⟨.classType 0, .privateLayout⟩] }
  includes := []

theorem ofDescription_gtk : (Repository.ofDescription (gtk widgetRecords)).outcome = .ok gtkRepository := by
  rfl

/-- Two records that name one slot. -/
def doubledRecords : List Description.Record :=
  [typeRecord "WidgetClass" (some "Widget"), typeRecord "WidgetIface" (some "Widget")]

end Sample

open Sample in
theorem records_kept_gtk : (Repository.ofDescription (gtk widgetRecords)).outcome = .ok gtkRepository ∧
    gtkRepository.content.records.length + gtkRepository.content.layoutSlots.length = widgetRecords.length ∧
    gtkRepository.content.Reaches widgetClass ∧ gtkRepository.content.Reaches requisition := by
  obtain ⟨records, hrecords, -, hcount, hrecord⟩ := records_kept ofDescription_gtk
  rcases hrecords with _ | ⟨⟨hfirst, -⟩, _ | ⟨⟨hsecond, -⟩, _ | ⟨⟨hthird, -⟩, _ | _⟩⟩⟩
  cases (show _ = Except.ok widgetClass from rfl).symm.trans hfirst
  cases (show _ = Except.ok requisition from rfl).symm.trans hsecond
  cases (show _ = Except.ok widgetClassPrivate from rfl).symm.trans hthird
  have hsymbols : ∀ kind, kind ≠ .record → kind ≠ .classStruct → ∀ symbol,
      some symbol ∈ gtkRepository.content.namesOf kind → symbol.native = "Widget" := by
    intro kind hrecord hclass symbol hsymbol
    cases kind <;> simp_all [gtkRepository, Namespace.namesOf, SymbolName.pascal]
  have hlast : gtkRepository.content.Lasting widgetClass [requisition, widgetClassPrivate] := by
    have hslots : ∀ other ∈ [requisition, widgetClassPrivate],
        gtkRepository.content.slot? other ≠ gtkRepository.content.slot? widgetClass := by
      decide +kernel
    exact fun slot hslot other hother hsame => hslots other hother (hsame.trans hslot.symm)
  refine ⟨ofDescription_gtk, hcount.mpr (by decide +kernel), ?_, ?_⟩
  · refine (hrecord [] widgetClass _ rfl hlast).2 ⟨by decide, fun kind hkind hclass symbol hsymbol => ?_⟩
    rw [hsymbols kind hkind hclass symbol hsymbol]
    decide
  · refine (hrecord [widgetClass] requisition _ rfl ?_).2
      ⟨by decide, fun kind hkind hclass symbol hsymbol => ?_⟩
    · rintro slot ⟨⟩
    · rw [hsymbols kind hkind hclass symbol hsymbol]
      decide

/-- The first of two records that name one slot is neither kept nor found. -/
theorem lost_doubled : ∃ r, (Repository.ofDescription (Sample.gtk Sample.doubledRecords)).outcome = .ok r ∧
    r.content.records.length + r.content.layoutSlots.length ≠ Sample.doubledRecords.length ∧
    r.content.records = [] ∧ r.content.layoutSlots = [⟨.classType 0, .publicLayout⟩] ∧
    (r.content.layoutAt? ⟨.classType 0, .publicLayout⟩).map (·.name.native) = some "WidgetIface" ∧
    r.content.lookup "WidgetClass" = none := by
  refine ⟨_, rfl, ?_⟩
  decide +kernel

end Interop
