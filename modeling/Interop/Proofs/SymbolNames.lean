import Interop.Proofs.Signatures

/-! The managed names of type symbols. They are capitalised, so that none starts with a small Latin letter, also
not a nested one of a layout. Main statements: `Obtained.capitalized`,
`Obtained.exists_managedName_eq`. -/

namespace Interop

/-! ### Capital letters -/

namespace Text

theorem isLower_iff (c : Char) : c.isLower = true ↔ 97 ≤ c.toNat ∧ c.toNat ≤ 122 := by
  rw [Char.isLower, Bool.and_eq_true, decide_eq_true_iff, decide_eq_true_iff]
  rfl

/-- No run of the table maps into the small Latin letters. -/
theorem isLower_apply {run : CaseRun} (hrun : run ∈ CaseTable.upperRuns) {n : Nat} (h : run.covers n = true) :
    (run.apply n).isLower = false := by
  have hranges : ∀ run ∈ CaseTable.upperRuns,
      (122 : Int) < run.first + run.distance ∨ run.last + run.distance < 97 := by
    decide +kernel
  have hbounds : run.first ≤ n ∧ n ≤ run.last := by
    rw [CaseRun.covers, Bool.and_eq_true, Bool.and_eq_true, decide_eq_true_iff, decide_eq_true_iff] at h
    exact h.1
  rw [Bool.eq_false_iff, Ne, isLower_iff, CaseRun.apply, Char.toNat_ofNat]
  rcases hranges run hrun with habove | hbelow <;> split <;> omega

/-- The uppercase form of a character starts with one that is no small Latin letter. -/
theorem exists_upper_eq (c : Char) : ∃ first rest, upper c = first :: rest ∧ first.isLower = false := by
  rw [upper, mapCase]
  cases hexpansion : CaseTable.upperExpansions.lookup c.toNat with
  | some numbers =>
      have hfirst : ∀ expansion ∈ CaseTable.upperExpansions, ∃ first ∈ expansion.2.head?,
          (Char.ofNat first).isLower = false := by
        decide +kernel
      obtain ⟨before, after, hsplit, -⟩ := List.lookup_eq_some_iff.mp hexpansion
      obtain ⟨first, hhead, hlower⟩ :=
        hfirst (c.toNat, numbers) (hsplit ▸ List.mem_append_right before List.mem_cons_self)
      obtain ⟨rest, rfl⟩ := List.head?_eq_some_iff.mp hhead
      exact ⟨_, _, rfl, hlower⟩
  | none =>
      cases hrun : CaseTable.upperRuns.find? (·.covers c.toNat) with
      | some run =>
          have hcovers := List.find?_some hrun
          exact ⟨_, _, rfl, isLower_apply (List.mem_of_find?_eq_some hrun) hcovers⟩
      | none =>
          refine ⟨c, [], rfl, ?_⟩
          have hlatin := List.find?_eq_none.mp hrun ⟨0x61, 0x7A, 1, -32⟩ List.mem_cons_self
          rw [Bool.eq_false_iff, Ne, isLower_iff]
          simpa [CaseRun.covers, Nat.mod_one] using hlatin

end Text

/-- A text that starts with a small Latin letter. -/
def StartsSmall (text : String) : Prop := ∃ c ∈ text.toList.head?, c.isLower = true

theorem not_startsSmall_pascalCase (name : String) : ¬StartsSmall (pascalCase name) := by
  have hparts : ∀ text : List Char, ∀ c ∈ (Text.capitalizeParts true text).head?, c.isLower = false := by
    intro text
    induction text with
    | nil => nofun
    | cons c text ih =>
        rw [Text.capitalizeParts]
        split
        · exact ih
        · obtain ⟨first, rest, hupper, hlower⟩ := Text.exists_upper_eq c
          rw [if_pos rfl, hupper, List.cons_append, List.head?_cons]
          rintro _ ⟨⟩
          exact hlower
  rintro ⟨c, hc, hlower⟩
  rw [pascalCase, String.toList_ofList] at hc
  rw [hparts name.toList c hc] at hlower
  cases hlower

/-- A text that starts with a small letter has it from one of its parts. -/
theorem StartsSmall.of_append {text back : String} (h : StartsSmall (text ++ back)) :
    StartsSmall text ∨ StartsSmall back := by
  obtain ⟨c, hc, hlower⟩ := h
  rw [String.toList_append, List.head?_append] at hc
  rcases Option.or_eq_some_iff.mp hc with htext | ⟨-, hback⟩
  · exact .inl ⟨c, htext, hlower⟩
  · exact .inr ⟨c, hback, hlower⟩

/-! ### Symbols from descriptions -/

theorem SymbolName.IsPascal.not_startsSmall {name : SymbolName} (h : name.IsPascal) : ¬StartsSmall name.managed := by
  rw [h]
  exact not_startsSmall_pascalCase name.native

theorem Alias.isPascal_ofDescription {key : NamespaceKey} {d : Description.Alias} {declared : Alias}
    (h : Alias.ofDescription key d = .ok declared) : declared.name.IsPascal := by
  obtain ⟨name, -, h⟩ := bind_eq_ok.mp h
  obtain ⟨ctype, -, h⟩ := bind_eq_ok.mp h
  dsimp only at h
  split at h
  on_goal 2 => cases h
  obtain ⟨target, -, h⟩ := bind_eq_ok.mp h
  obtain ⟨targetName, -, h⟩ := bind_eq_ok.mp h
  cases h
  rfl

namespace Namespace

/-- No type symbol has a managed name that starts with a small letter. -/
def Capitalized (ns : Namespace) : Prop :=
  ∀ kind symbol, some symbol ∈ ns.namesOf kind → ¬StartsSmall symbol.managed

variable {ns placed : Namespace} {record : Record}

theorem mem_namesOf_of_layoutOwner? {name : String} {owner : LayoutOwner} {symbol : SymbolName}
    (h : ns.layoutOwner? name = some (owner, symbol)) :
    some symbol ∈ ns.namesOf .classType ∨ some symbol ∈ ns.namesOf .interfaceType := by
  have hmem : ∀ {names : List SymbolName} {found : SymbolName × Nat},
      names.zipIdx.find? (·.1.native == name) = some found → found.1 ∈ names :=
    fun hfind => List.fst_mem_of_mem_zipIdx (List.mem_of_find?_eq_some hfind)
  rw [layoutOwner?_eq] at h
  rcases Option.or_eq_some_iff.mp h with h | ⟨-, h⟩
  · obtain ⟨found, hfind, heq⟩ := Option.map_eq_some_iff.mp h
    cases heq
    obtain ⟨c, hc, hname⟩ := List.mem_map.mp (hmem hfind)
    exact .inl (List.mem_map.mpr ⟨c, hc, congrArg some hname⟩)
  · obtain ⟨found, hfind, heq⟩ := Option.map_eq_some_iff.mp h
    cases heq
    obtain ⟨c, hc, hname⟩ := List.mem_map.mp (hmem hfind)
    exact .inr (List.mem_map.mpr ⟨c, hc, congrArg some hname⟩)

/-- A record that is kept under a nested name starts like its owner. -/
theorem Capitalized.kept (hns : ns.Capitalized) (hrecord : ¬StartsSmall record.name.managed) :
    ¬StartsSmall (ns.kept record).name.managed := by
  unfold Namespace.kept
  cases hfound : record.layoutOf.bind fun name => (ns.ownerOf record name).toOption with
  | none => exact hrecord
  | some found =>
      obtain ⟨owner, ownerName⟩ := found
      obtain ⟨name, -, hname⟩ := Option.bind_eq_some_iff.mp hfound
      have howner : ns.ownerOf record name = .ok (owner, ownerName) := by
        cases hresult : ns.ownerOf record name with
        | error fault =>
            rw [hresult] at hname
            cases hname
        | ok result =>
            rw [hresult] at hname
            exact congrArg Except.ok (Option.some.inj hname)
      have hcapital : ¬StartsSmall ownerName.managed :=
        (mem_namesOf_of_layoutOwner? (layoutOwner?_of_ownerOf howner)).elim (hns _ _) (hns _ _)
      show ¬StartsSmall (ownerName.managed ++ ".Native." ++ (layoutKind record).label)
      rw [String.append_assoc]
      intro h
      rcases h.of_append with howner | hrest
      · exact hcapital howner
      · obtain ⟨c, hc, hlower⟩ := hrest
        rw [String.toList_append] at hc
        cases hc
        exact absurd hlower (by decide)

theorem Capitalized.place (hns : ns.Capitalized) (hrecord : ¬StartsSmall record.name.managed)
    (h : ns.place record = .ok placed) : placed.Capitalized := by
  have hsame := sameOwners_place h
  have hfixed : ∀ {kind : SymbolKind} {symbol : SymbolName}, (∀ (ns : Namespace) records classes interfaces
      layoutSlots, { ns with records, classes, interfaces, layoutSlots }.namesOf kind = ns.namesOf kind) →
      some symbol ∈ placed.namesOf kind → ¬StartsSmall symbol.managed := by
    intro kind symbol hfixed hsymbol
    rw [apply_place (·.namesOf kind) hfixed h] at hsymbol
    exact hns kind symbol hsymbol
  intro kind symbol hsymbol
  cases kind with
  | classType =>
      have hnames : placed.namesOf .classType = ns.namesOf .classType := by
        simpa [namesOf, Function.comp_def] using congrArg (List.map some) hsame.classes
      exact hns .classType symbol (hnames ▸ hsymbol)
  | interfaceType =>
      have hnames : placed.namesOf .interfaceType = ns.namesOf .interfaceType := by
        simpa [namesOf, Function.comp_def] using congrArg (List.map some) hsame.interfaces
      exact hns .interfaceType symbol (hnames ▸ hsymbol)
  | record =>
      rcases place_cases h with ⟨-, -, rfl⟩ | ⟨slot, -, -, -, rfl⟩
      · rw [namesOf, List.map_append, List.mem_append] at hsymbol
        rcases hsymbol with hold | hnew
        · exact hns .record symbol hold
        · cases List.mem_singleton.mp hnew
          exact hrecord
      · rw [namesOf, records_attach] at hsymbol
        exact hns .record symbol hsymbol
  | classStruct =>
      rcases place_cases h with ⟨-, -, rfl⟩ | ⟨slot, -, -, howner, rfl⟩
      · exact hns .classStruct symbol hsymbol
      · obtain ⟨place, hplace, hname⟩ := List.mem_map.mp hsymbol
        rw [layoutAt?_attach howner] at hname
        by_cases hslot : place = slot
        · rw [if_pos hslot] at hname
          cases hname
          exact hns.kept hrecord
        · rw [if_neg hslot] at hname
          refine hns .classStruct symbol (List.mem_map.mpr ⟨place, ?_, hname⟩)
          rw [layoutSlots_attach] at hplace
          split at hplace
          · exact hplace
          · exact (List.mem_append.mp hplace).resolve_right fun hnew => hslot (List.mem_singleton.mp hnew)
  | _ => exact hfixed (fun _ _ _ _ _ => rfl) hsymbol

theorem capitalized_ofDescription {key : NamespaceKey} {d : Description.Namespace}
    (h : (Namespace.ofDescription key d).outcome = .ok ns) : ns.Capitalized := by
  simp only [Namespace.ofDescription, Logged.outcome_bind, Logged.outcome_ofExcept, Logged.outcome_forEach,
    bind_eq_ok, Logged.outcome_note, Logged.outcome_pure] at h
  obtain ⟨aliases, haliases, callbacks, hcallbacks, enumerations, henumerations, bitfields, hbitfields, interfaces,
    hinterfaces, records, hrecords, classes, hclasses, unions, hunions, functions, -, constants, -,
    attached, hattached, -, -, h⟩ := h
  cases h
  have hnames : ∀ {α : Type} {l : List α} {name : α → SymbolName}, (∀ a ∈ l, (name a).IsPascal) →
      ∀ symbol, some symbol ∈ l.map (some ∘ name) → ¬StartsSmall symbol.managed := by
    intro α l name hl symbol hsymbol
    obtain ⟨a, ha, heq⟩ := List.mem_map.mp hsymbol
    cases heq
    exact (hl a ha).not_startsSmall
  have hrecord := forall_mem_of_mapM (fun _ _ h => (Record.regular_ofDescription h).1) hrecords
  have hplace : ∀ record ∈ records, ∀ (ns placed : Namespace), ns.Capitalized → ns.place record = .ok placed →
      placed.Capitalized := fun record hmem _ _ hns h => hns.place (hrecord record hmem).not_startsSmall h
  refine foldlM_induction hplace (fun kind => ?_) hattached
  cases kind with
  | classType => exact hnames (forall_mem_of_mapM (fun _ _ h => (Class.regular_ofDescription h).1) hclasses)
  | interfaceType => exact hnames (forall_mem_of_mapM (fun _ _ h => (Interface.regular_ofDescription h).1) hinterfaces)
  | union => exact hnames (forall_mem_of_mapM (fun _ _ h => (Union.regular_ofDescription h).1) hunions)
  | enumeration =>
      exact hnames (forall_mem_of_mapM (fun _ _ h => (Enumeration.regular_ofDescription h).1) henumerations)
  | bitfield => exact hnames (forall_mem_of_mapM (fun _ _ h => (Enumeration.regular_ofDescription h).1) hbitfields)
  | callback => exact hnames (forall_mem_of_mapM (fun _ _ h => (Callback.regular_ofDescription h).1) hcallbacks)
  | record | classStruct => exact fun _ h => absurd h List.not_mem_nil
  | _ => exact hnames (forall_mem_of_mapM (fun _ _ h => Alias.isPascal_ofDescription h) haliases)

end Namespace

/-- No type symbol of a graph has a managed name that starts with a small letter. -/
theorem Obtained.capitalized {g : Graph} (hg : Obtained g) {id : RepositoryId} {r : Repository}
    (hr : g.repository? id = some r) : r.content.Capitalized := by
  obtain ⟨key, d, hcontent⟩ := hg.exists_content hr
  exact Namespace.capitalized_ofDescription hcontent

/-- The name of a symbol starts with a small letter only behind that of another namespace. -/
theorem Obtained.exists_managedName_eq {g : Graph} (hg : Obtained g) (symbol : SymbolRef) (id : RepositoryId) :
    ∃ name, ¬StartsSmall name ∧ g.managedName symbol id =
      if symbol.isExternal id then g.namespaceName symbol.repository ++ ("." ++ name) else name := by
  have hqualified : ∀ name, (if symbol.isExternal id then s!"{g.namespaceName symbol.repository}.{name}" else name) =
      if symbol.isExternal id then g.namespaceName symbol.repository ++ ("." ++ name) else name := by
    intro name
    rw [← String.append_assoc]
    rfl
  rw [Graph.managedName]
  cases hfound : (g.repository? symbol.repository).bind (·.content.symbolName? symbol.kind symbol.index) with
  | none =>
      refine ⟨"IntPtr", ?_, hqualified "IntPtr"⟩
      rintro ⟨c, hc, hlower⟩
      cases hc
      exact absurd hlower (by decide)
  | some name =>
      obtain ⟨r, hr, hname⟩ := Option.bind_eq_some_iff.mp hfound
      have hmem := List.mem_of_getElem? (Option.join_eq_some_iff.mp hname)
      exact ⟨name.managed, hg.capitalized hr symbol.kind name hmem, hqualified name.managed⟩

end Interop
