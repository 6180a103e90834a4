import Interop.Proofs.Folding

/-! The name index of a namespace and the slots of its layouts. A name is found at its first symbol in search
order, as in a table to which the symbols are added one after another; every slot has one attached layout, and
every attached layout one slot. Main statement: `describes_ofDescription`. -/

namespace Interop

namespace Namespace

/-! ### Symbols -/

/-- The type symbols of a namespace, with their kinds, their positions and their names. -/
inductive HasSymbol (ns : Namespace) : SymbolKind → Nat → SymbolName → Prop
  | ofClass {i : Nat} {c : Class} (h : ns.classes[i]? = some c) : HasSymbol ns .classType i c.name
  | ofInterface {i : Nat} {c : Interface} (h : ns.interfaces[i]? = some c) : HasSymbol ns .interfaceType i c.name
  | ofRecord {i : Nat} {record : Record} (h : ns.records[i]? = some record) : HasSymbol ns .record i record.name
  | ofUnion {i : Nat} {c : Union} (h : ns.unions[i]? = some c) : HasSymbol ns .union i c.name
  | ofEnumeration {i : Nat} {c : Enumeration} (h : ns.enumerations[i]? = some c) :
    HasSymbol ns .enumeration i c.name
  | ofBitfield {i : Nat} {c : Enumeration} (h : ns.bitfields[i]? = some c) : HasSymbol ns .bitfield i c.name
  | ofCallback {i : Nat} {c : Callback} (h : ns.callbacks[i]? = some c) : HasSymbol ns .callback i c.name
  | ofAlias {i : Nat} {c : Alias} (h : ns.aliases[i]? = some c) : HasSymbol ns .alias i c.name
  | ofLayout {i : Nat} {slot : LayoutSlot} {layout : Record} (hslot : ns.layoutSlots[i]? = some slot)
    (h : ns.layoutAt? slot = some layout) : HasSymbol ns .classStruct i layout.name

variable {ns : Namespace} {kind : SymbolKind} {i : Nat} {name : String} {symbol : SymbolName}

theorem symbolName?_eq_some : ns.symbolName? kind i = some symbol ↔ ns.HasSymbol kind i symbol := by
  rw [symbolName?, Option.join_eq_some_iff]
  constructor
  · intro h
    cases kind <;> rw [namesOf, List.getElem?_map] at h <;>
      obtain ⟨found, hfound, hname⟩ := Option.map_eq_some_iff.mp h
    case classStruct =>
      obtain ⟨layout, hlayout, rfl⟩ := Option.map_eq_some_iff.mp hname
      exact .ofLayout hfound hlayout
    all_goals
      cases hname
      constructor
      exact hfound
  · intro h
    cases h with
    | ofLayout hslot h => rw [namesOf, List.getElem?_map, hslot, Option.map_some, h, Option.map_some]
    | _ h => rw [namesOf, List.getElem?_map, h, Option.map_some]

/-- A symbol of a kind has a native name. -/
def Declares (ns : Namespace) (kind : SymbolKind) (i : Nat) (name : String) : Prop :=
  ∃ symbol, ns.HasSymbol kind i symbol ∧ symbol.native = name

theorem declares_iff : ns.Declares kind i name ↔
    ∃ h : i < (ns.namesOf kind).length, (ns.namesOf kind)[i].any (·.native == name) = true := by
  constructor
  · rintro ⟨symbol, hsymbol, rfl⟩
    rw [← symbolName?_eq_some, symbolName?, Option.join_eq_some_iff] at hsymbol
    obtain ⟨hi, hsymbol⟩ := List.getElem?_eq_some_iff.mp hsymbol
    exact ⟨hi, by rw [hsymbol]; simp⟩
  · rintro ⟨hi, hany⟩
    obtain ⟨symbol, hsymbol, hname⟩ := (Option.any_eq_true _ _).mp hany
    refine ⟨symbol, symbolName?_eq_some.mp ?_, eq_of_beq hname⟩
    rw [symbolName?, Option.join_eq_some_iff, List.getElem?_eq_getElem hi, hsymbol]

/-- The position of a name among the symbols of a kind is the smallest one. -/
theorem position?_eq_some_iff : ns.position? kind name = some i ↔
    ns.Declares kind i name ∧ ∀ j < i, ¬ns.Declares kind j name := by
  rw [position?, List.findIdx?_eq_some_iff_getElem]
  simp only [declares_iff, not_exists]
  constructor
  · rintro ⟨hi, hfound, hbefore⟩
    exact ⟨⟨hi, hfound⟩, fun j hj _ => hbefore j hj⟩
  · rintro ⟨⟨hi, hfound⟩, hbefore⟩
    exact ⟨hi, hfound, fun j hj => hbefore j hj (hj.trans hi)⟩

theorem position?_eq_none_iff : ns.position? kind name = none ↔ ∀ j, ¬ns.Declares kind j name := by
  rw [position?, List.findIdx?_eq_none_iff]
  simp only [declares_iff, not_exists, List.forall_mem_iff_getElem, Bool.not_eq_true]

theorem lookup_eq_some_iff : ns.lookup name = some (kind, i) ↔
    (ns.Declares kind i name ∧ ∀ j < i, ¬ns.Declares kind j name) ∧
      ∃ before after, searchOrder = before ++ kind :: after ∧
        ∀ other ∈ before, ∀ j, ¬ns.Declares other j name := by
  rw [lookup, List.findSome?_eq_some_iff]
  simp only [Option.map_eq_some_iff, Option.map_eq_none_iff, position?_eq_none_iff]
  constructor
  · rintro ⟨before, other, after, horder, ⟨j, hj, heq⟩, hbefore⟩
    cases heq
    exact ⟨position?_eq_some_iff.mp hj, before, after, horder, hbefore⟩
  · rintro ⟨hfound, before, after, horder, hbefore⟩
    exact ⟨before, kind, after, horder, ⟨i, position?_eq_some_iff.mpr hfound, rfl⟩, hbefore⟩

theorem mem_searchOrder (kind : SymbolKind) : kind ∈ searchOrder := by
  cases kind <;> decide

theorem lookup_eq_none_iff : ns.lookup name = none ↔ ∀ kind j, ¬ns.Declares kind j name := by
  rw [lookup, List.findSome?_eq_none_iff]
  simp only [Option.map_eq_none_iff, position?_eq_none_iff]
  exact ⟨fun h kind => h kind (mem_searchOrder kind), fun h kind _ => h kind⟩

/-! ### The index -/

/-- The symbols of a kind with their addresses, by name. -/
def entriesOf (ns : Namespace) (kind : SymbolKind) : List (String × SymbolKind × Nat) :=
  (ns.namesOf kind).zipIdx.filterMap fun entry => entry.1.map fun symbol => (symbol.native, kind, entry.2)

/-- The table to which all symbols are added in search order; the first entry for a name stays. -/
def index (ns : Namespace) : Std.HashMap String (SymbolKind × Nat) :=
  (searchOrder.flatMap ns.entriesOf).foldl (fun table entry => table.insertIfNew entry.1 entry.2) ∅

/-- Of the entries added for a name, the first one stays, unless the table had one before. -/
theorem getElem?_foldl_insertIfNew {α : Type} (entries : List (String × α)) (table : Std.HashMap String α)
    (name : String) :
    (entries.foldl (fun table entry => table.insertIfNew entry.1 entry.2) table)[name]? =
      table[name]?.or ((entries.find? (·.1 == name)).map (·.2)) := by
  induction entries generalizing table with
  | nil => simp
  | cons entry entries ih =>
      rw [List.foldl_cons, ih, Std.HashMap.getElem?_insertIfNew, List.find?_cons]
      by_cases hname : entry.1 = name
      · subst hname
        cases hfound : table[entry.1]? with
        | some found => simp [Std.HashMap.mem_iff_isSome_getElem?, hfound]
        | none => simp [Std.HashMap.mem_iff_isSome_getElem?, hfound]
      · simp [beq_false_of_ne hname]

theorem find?_entriesOf (ns : Namespace) (kind : SymbolKind) (name : String) :
    ((ns.entriesOf kind).find? (·.1 == name)).map (·.2) = (ns.position? kind name).map (kind, ·) := by
  have hfrom : ∀ (names : List (Option SymbolName)) (n : Nat),
      (((names.zipIdx n).filterMap fun entry => entry.1.map fun symbol => (symbol.native, kind, entry.2)).find?
        (·.1 == name)).map (·.2) = (names.findIdx? (·.any (·.native == name))).map fun i => (kind, i + n) := by
    intro names
    induction names with
    | nil => exact fun n => rfl
    | cons symbol? names ih =>
        intro n
        rw [List.zipIdx_cons, List.findIdx?_cons]
        cases symbol? with
        | none =>
            rw [List.filterMap_cons_none rfl, ih]
            simp [Function.comp_def, Nat.add_assoc, Nat.add_comm 1]
        | some symbol =>
            simp only [List.filterMap_cons, Option.map_some, List.find?_cons]
            by_cases hname : symbol.native = name
            · simp [hname]
            · simp only [Option.any_some, beq_false_of_ne hname, ih, Bool.false_eq_true, if_false, Option.map_map]
              simp [Function.comp_def, Nat.add_assoc, Nat.add_comm 1]
  exact hfrom (ns.namesOf kind) 0

/-- A name is looked up in the index. -/
theorem getElem?_index (ns : Namespace) (name : String) : ns.index[name]? = ns.lookup name := by
  rw [index, getElem?_foldl_insertIfNew, List.find?_flatMap, List.map_findSome?, lookup,
    Std.HashMap.getElem?_empty, Option.none_or]
  exact congrArg searchOrder.findSome? (funext fun kind => ns.find?_entriesOf kind name)

/-- The index has an entry for each name. -/
theorem mem_index {name : String} : name ∈ ns.index ↔ ∃ kind i, ns.Declares kind i name := by
  rw [Std.HashMap.mem_iff_isSome_getElem?, getElem?_index, Option.isSome_iff_ne_none, Ne, lookup_eq_none_iff]
  simp only [not_forall, not_not]

theorem mem_symbolNames {name : String} : name ∈ ns.symbolNames ↔ ∃ kind i, ns.Declares kind i name := by
  simp only [symbolNames, List.mem_flatMap, mem_searchOrder, true_and, List.mem_filterMap, declares_iff]
  refine exists_congr fun kind => ?_
  constructor
  · rintro ⟨symbol?, hmem, hname⟩
    obtain ⟨i, hi, rfl⟩ := List.mem_iff_getElem.mp hmem
    obtain ⟨symbol, hsymbol, rfl⟩ := Option.map_eq_some_iff.mp hname
    exact ⟨i, hi, by rw [hsymbol]; simp⟩
  · rintro ⟨i, hi, hany⟩
    obtain ⟨symbol, hsymbol, hname⟩ := (Option.any_eq_true _ _).mp hany
    exact ⟨_, List.getElem_mem hi, by rw [hsymbol, Option.map_some, eq_of_beq hname]⟩

theorem size_index (ns : Namespace) : ns.index.size = ns.symbolCount := by
  have hkeys : ns.index.keys.Nodup := by
    refine Std.HashMap.distinct_keys.imp fun h => ?_
    simpa using h
  have hperm : ns.index.keys.Perm ns.symbolNames.eraseDups := by
    refine (List.perm_ext_iff_of_nodup hkeys (Reach.nodup_eraseDups _)).mpr fun name => ?_
    rw [Std.HashMap.mem_keys, mem_index, List.mem_eraseDups, mem_symbolNames]
  rw [symbolCount, ← hperm.length_eq, Std.HashMap.length_keys]

/-- Names are found as in an index of all symbols, at the first one that has the name. -/
structure Indexes (ns : Namespace) : Prop where
  symbols : ∀ kind i symbol, ns.symbolName? kind i = some symbol ↔ ns.HasSymbol kind i symbol
  index : ∀ name, ns.lookup name = ns.index[name]?
  /-- The kind is the first one in search order that has the name, and the position the smallest one. -/
  found : ∀ name kind i, ns.lookup name = some (kind, i) ↔
    (ns.Declares kind i name ∧ ∀ j < i, ¬ns.Declares kind j name) ∧
      ∃ before after, searchOrder = before ++ kind :: after ∧
        ∀ other ∈ before, ∀ j, ¬ns.Declares other j name
  missed : ∀ name, ns.lookup name = none ↔ ∀ kind i symbol, ns.HasSymbol kind i symbol → symbol.native ≠ name
  /-- The symbols are counted by their distinct names. -/
  count : ∃ names : List String, names.Nodup ∧
    (∀ name, name ∈ names ↔ ∃ kind i symbol, ns.HasSymbol kind i symbol ∧ symbol.native = name) ∧
    ns.symbolCount = names.length
  size : ns.symbolCount = ns.index.size

theorem indexes (ns : Namespace) : ns.Indexes where
  symbols _ _ _ := symbolName?_eq_some
  index name := (ns.getElem?_index name).symm
  found _ _ _ := lookup_eq_some_iff
  missed name := by
    rw [lookup_eq_none_iff]
    simp only [Declares, not_exists, not_and, Ne]
  count := ⟨ns.symbolNames.eraseDups, Reach.nodup_eraseDups _,
    fun name => by rw [List.mem_eraseDups, mem_symbolNames]; rfl, rfl⟩
  size := ns.size_index.symm

/-! ### Slots -/

/-- The classes and interfaces of a namespace, with their names and layouts. -/
inductive HasLayouts (ns : Namespace) : LayoutOwner → SymbolName → Layouts → Prop
  | ofClass {i : Nat} {c : Class} (h : ns.classes[i]? = some c) : HasLayouts ns (.classType i) c.name c.layouts
  | ofInterface {i : Nat} {c : Interface} (h : ns.interfaces[i]? = some c) :
    HasLayouts ns (.interfaceType i) c.name c.layouts

theorem HasLayouts.layoutAt? {owner : LayoutOwner} {ownerName : SymbolName} {layouts : Layouts}
    (h : ns.HasLayouts owner ownerName layouts) (kind : LayoutKind) :
    ns.layoutAt? ⟨owner, kind⟩ = layouts.get? kind := by
  cases h with
  | ofClass h => simp [Namespace.layoutAt?, h]
  | ofInterface h => simp [Namespace.layoutAt?, h]

/-- An owner is found with its name. -/
theorem HasLayouts.name_eq {owner : LayoutOwner} {ownerName found : SymbolName} {layouts : Layouts}
    {name : String} (h : ns.HasLayouts owner ownerName layouts)
    (hfound : ns.layoutOwner? name = some (owner, found)) :
    found = ownerName := by
  have hname : ∀ {names : List SymbolName} {entry : SymbolName × Nat},
      names.zipIdx.find? (·.1.native == name) = some entry → names[entry.2]? = some entry.1 :=
    fun hfind => List.mk_mem_zipIdx_iff_getElem?.mp (List.mem_of_find?_eq_some hfind)
  rw [layoutOwner?_eq] at hfound
  rcases Option.or_eq_some_iff.mp hfound with hfound | ⟨-, hfound⟩
  · obtain ⟨entry, hfind, heq⟩ := Option.map_eq_some_iff.mp hfound
    cases heq
    have hentry := hname hfind
    cases h with
    | ofClass h =>
        rw [List.getElem?_map, h] at hentry
        exact (Option.some.inj hentry).symm
  · obtain ⟨entry, hfind, heq⟩ := Option.map_eq_some_iff.mp hfound
    cases heq
    have hentry := hname hfind
    cases h with
    | ofInterface h =>
        rw [List.getElem?_map, h] at hentry
        exact (Option.some.inj hentry).symm

/-- Every slot has a layout, and every layout of a class or interface has one slot, with a name nested in that of
its owner. -/
structure SlotsLayouts (ns : Namespace) : Prop where
  exists_layout : ∀ i slot, ns.layoutSlots[i]? = some slot → ∃ layout, ns.layout? i = some layout
  nodup : ns.layoutSlots.Nodup
  attached : ∀ owner ownerName layouts kind layout, ns.HasLayouts owner ownerName layouts →
    layouts.get? kind = some layout →
      ∃ i, ns.layout? i = some layout ∧ ∀ j, ns.layoutSlots[j]? = some ⟨owner, kind⟩ ↔ j = i
  publicName : ∀ owner ownerName layouts layout, ns.HasLayouts owner ownerName layouts →
    layouts.get? .publicLayout = some layout → layout.name.managed = ownerName.managed ++ ".Native.ClassStruct"
  privateName : ∀ owner ownerName layouts layout, ns.HasLayouts owner ownerName layouts →
    layouts.get? .privateLayout = some layout →
      layout.name.managed = ownerName.managed ++ ".Native.PrivateClassStruct"

namespace Keeps

variable {records : List Record} (hns : ns.Keeps records)

include hns

theorem nodup_layoutSlots : ns.layoutSlots.Nodup := by
  rw [hns.slots]
  exact Reach.nodup_eraseDups _

/-- The slots are those that have a layout. -/
theorem mem_layoutSlots_iff {slot : LayoutSlot} :
    slot ∈ ns.layoutSlots ↔ ∃ layout, ns.layoutAt? slot = some layout := by
  rw [hns.slots, List.mem_eraseDups, List.mem_filterMap]
  constructor
  · rintro ⟨record, hmem, hslot⟩
    have hfilter : (records.filter fun record => ns.slot? record = some slot) ≠ [] :=
      List.ne_nil_of_mem (List.mem_filter.mpr ⟨hmem, by simpa using hslot⟩)
    rw [hns.attached, List.getLast?_eq_some_getLast hfilter]
    exact ⟨_, rfl⟩
  · rintro ⟨layout, hlayout⟩
    obtain ⟨record, hmem, hslot, -⟩ := hns.exists_of_layoutAt? hlayout
    exact ⟨record, hmem, hslot⟩

/-- A layout is named after its owner. -/
theorem managed_eq {owner : LayoutOwner} {ownerName : SymbolName} {layouts : Layouts} {kind : LayoutKind}
    {layout : Record} (howner : ns.HasLayouts owner ownerName layouts)
    (hlayout : layouts.get? kind = some layout) :
    layout.name.managed = ownerName.managed ++ ".Native." ++ kind.label := by
  obtain ⟨record, -, hslot, rfl⟩ := hns.exists_of_layoutAt? ((howner.layoutAt? kind).trans hlayout)
  obtain ⟨name, hname, hslot⟩ := Option.bind_eq_some_iff.mp hslot
  obtain ⟨⟨owner', found⟩, hfound, heq⟩ := Option.map_eq_some_iff.mp hslot
  cases heq
  have hok : ns.ownerOf record name = .ok (owner, found) := by
    cases hresult : ns.ownerOf record name with
    | error fault =>
        rw [hresult] at hfound
        cases hfound
    | ok result =>
        rw [hresult] at hfound
        cases hfound
        rfl
  rw [kept, hname, Option.bind_some, hfound, howner.name_eq (layoutOwner?_of_ownerOf hok)]
  rfl

theorem slotsLayouts : ns.SlotsLayouts where
  exists_layout i slot hslot := by
    obtain ⟨layout, hlayout⟩ := hns.mem_layoutSlots_iff.mp (List.mem_of_getElem? hslot)
    exact ⟨layout, by rw [layout?, hslot, Option.bind_some, hlayout]⟩
  nodup := hns.nodup_layoutSlots
  attached owner ownerName layouts kind layout howner hlayout := by
    have hat := (howner.layoutAt? kind).trans hlayout
    obtain ⟨i, hi⟩ := List.getElem?_of_mem (hns.mem_layoutSlots_iff.mpr ⟨layout, hat⟩)
    refine ⟨i, by rw [layout?, hi, Option.bind_some, hat], fun j => ⟨fun hj => ?_, ?_⟩⟩
    · obtain ⟨hlt, -⟩ := List.getElem?_eq_some_iff.mp hj
      exact (List.getElem?_inj hlt hns.nodup_layoutSlots).mp (hj.trans hi.symm)
    · rintro rfl
      exact hi
  publicName _ _ _ _ howner hlayout := (hns.managed_eq howner hlayout).trans (String.append_assoc ..)
  privateName _ _ _ _ howner hlayout := (hns.managed_eq howner hlayout).trans (String.append_assoc ..)

end Keeps

/-- The name index and the slots of a namespace that is built from a description agree with what it declares. Each
symbol stands at its position; a name is found at the first symbol that has it, the first kind in search order and
the smallest position of that kind, and a name that is not found is that of no symbol; and the symbols are counted
by their distinct names. Every slot has a layout. No slot is there twice, and each layout of a class or interface
is in one of them, under a name nested in that of its owner. -/
theorem describes_ofDescription {key : NamespaceKey} {d : Description.Namespace}
    (h : (Namespace.ofDescription key d).outcome = .ok ns) : ns.Indexes ∧ ns.SlotsLayouts := by
  obtain ⟨records, -, hkeeps⟩ := Namespace.keeps_ofDescription h
  exact ⟨ns.indexes, hkeeps.slotsLayouts⟩

end Namespace

namespace Sample

/-- A namespace with three symbols of one name, and with two records that name one slot. -/
def crowded : Description.Namespace where
  classes := [{ name := some "Widget" }, { name := some "Widget" }]
  interfaces := [{ name := some "Editable" }]
  records := [typeRecord "WidgetClass" (some "Widget"), typeRecord "Widget" none,
    typeRecord "WidgetIface" (some "Widget"), typeRecord "EditableInterface" (some "Editable")]

end Sample

theorem describes_ofDescription_crowded : ∃ ns : Namespace,
    (Namespace.ofDescription ⟨"Gtk", "3.0"⟩ Sample.crowded).outcome = .ok ns ∧ (ns.Indexes ∧ ns.SlotsLayouts) ∧
      ns.lookup "Widget" = some (.classType, 0) ∧ ns.lookup "WidgetClass" = none ∧
      ns.lookup "WidgetIface" = some (.classStruct, 0) ∧
      ns.lookup "EditableInterface" = some (.classStruct, 1) ∧
      (ns.layout? 1).map (·.name.managed) = some "Editable.Native.ClassStruct" ∧ ns.symbolCount = 4 := by
  have hlookups : (Namespace.ofDescription ⟨"Gtk", "3.0"⟩ Sample.crowded).outcome.toOption.any fun ns =>
      ns.lookup "Widget" = some (.classType, 0) ∧ ns.lookup "WidgetClass" = none ∧
        ns.lookup "WidgetIface" = some (.classStruct, 0) ∧
        ns.lookup "EditableInterface" = some (.classStruct, 1) ∧
        (ns.layout? 1).map (·.name.managed) = some "Editable.Native.ClassStruct" ∧ ns.symbolCount = 4 := by
    decide +kernel
  cases hbuilt : (Namespace.ofDescription ⟨"Gtk", "3.0"⟩ Sample.crowded).outcome with
  | error fault =>
      rw [hbuilt] at hlookups
      cases hlookups
  | ok ns =>
      rw [hbuilt] at hlookups
      exact ⟨ns, rfl, Namespace.describes_ofDescription hbuilt, of_decide_eq_true hlookups⟩

end Interop
