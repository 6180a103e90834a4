import Interop.Graph.Decide
import Interop.Proofs.AliasChain
import Interop.Proofs.Lookup

/-! Renamed repositories. If some repositories of one graph stand in another one under other positions,
with the same declarations and with their includes bound accordingly, then whatever is looked up or
decided for one of them is the same in both graphs, up to the positions. -/

namespace Interop

/-! ### Renaming -/

/-- An include that is bound under the renamed position. -/
def Include.rename (ρ : RepositoryId → RepositoryId) (dependency : Include) : Include :=
  { dependency with bound := dependency.bound.map ρ }

/-- A repository with its includes bound under renamed positions. -/
def Repository.rename (ρ : RepositoryId → RepositoryId) (r : Repository) : Repository :=
  { r with includes := r.includes.map (·.rename ρ) }

theorem Repository.rename_id (r : Repository) : r.rename (fun a => a) = r := by
  have hid : ∀ dependency : Include, dependency.rename (fun a => a) = dependency := by
    intro dependency
    rw [Include.rename, Option.map_id']
  simp only [rename, hid, List.map_id']

/-- A symbol under the renamed position of its repository. -/
def SymbolRef.rename (ρ : RepositoryId → RepositoryId) (symbol : SymbolRef) : SymbolRef :=
  { symbol with repository := ρ symbol.repository }

@[simp] theorem SymbolRef.repository_rename (ρ : RepositoryId → RepositoryId) (symbol : SymbolRef) :
    (symbol.rename ρ).repository = ρ symbol.repository :=
  rfl

def NameTarget.rename (ρ : RepositoryId → RepositoryId) : NameTarget → NameTarget
  | .symbol address => .symbol (address.rename ρ)
  | .native spec => .native spec

def Representation.rename (ρ : RepositoryId → RepositoryId) : Representation → Representation
  | .symbol address => .symbol (address.rename ρ)
  | other => other

def DecidedType.rename (ρ : RepositoryId → RepositoryId) (d : DecidedType) : DecidedType :=
  { d with representation := d.representation.rename ρ }

/-- The symbol that represents a type, if any, is declared in one of some repositories. -/
def DecidedType.Within (ids : List RepositoryId) (d : DecidedType) : Prop :=
  ∀ symbol, d.symbol? = some symbol → symbol.repository ∈ ids

namespace Graph

theorem findSome?_congr {α β : Type} {l : List α} {p q : α → Option β} (h : ∀ a ∈ l, p a = q a) :
    l.findSome? p = l.findSome? q := by
  induction l with
  | nil => rfl
  | cons a l ih =>
      rw [List.findSome?_cons, List.findSome?_cons, h a (by simp),
        ih fun b hb => h b (List.mem_cons_of_mem _ hb)]

theorem length_le_of_repository? {g : Graph} {ids : List RepositoryId} (hnodup : ids.Nodup)
    (hids : ∀ id ∈ ids, ∃ r, g.repository? id = some r) : ids.length ≤ g.size := by
  have hsub : ∀ id ∈ ids, id ∈ g.ids := by
    intro id hid
    obtain ⟨r, hr⟩ := hids id hid
    exact mem_ids.mpr (lt_of_repository? hr)
  simpa [Graph.ids] using (List.subperm_of_subset hnodup hsub).length_le

/-- Some repositories of a graph, closed under bound includes, stand in another graph under renamed
positions. -/
structure Transport (g g' : Graph) (ρ : RepositoryId → RepositoryId) (ids : List RepositoryId) :
    Prop where
  nodup : ids.Nodup
  inj : ∀ a ∈ ids, ∀ b ∈ ids, ρ a = ρ b → a = b
  closed : ∀ a ∈ ids, ∀ b ∈ g.boundOf a, b ∈ ids
  repository : ∀ a ∈ ids, ∃ r, g.repository? a = some r ∧ g'.repository? (ρ a) = some (r.rename ρ)

namespace Transport

variable {g g' : Graph} {ρ : RepositoryId → RepositoryId} {ids : List RepositoryId}
  (h : g.Transport g' ρ ids)

include h

theorem length_le_size : ids.length ≤ g.size := by
  refine length_le_of_repository? h.nodup fun a ha => ?_
  obtain ⟨r, hr, -⟩ := h.repository a ha
  exact ⟨r, hr⟩

theorem length_le_size' : ids.length ≤ g'.size := by
  have hnodup : (ids.map ρ).Nodup := h.nodup.map_on h.inj
  have hle : (ids.map ρ).length ≤ g'.size := by
    refine length_le_of_repository? hnodup fun a ha => ?_
    obtain ⟨b, hb, rfl⟩ := List.mem_map.mp ha
    obtain ⟨r, -, hr⟩ := h.repository b hb
    exact ⟨r.rename ρ, hr⟩
  rwa [List.length_map] at hle

section Repository

variable {id : RepositoryId} (hid : id ∈ ids)

include hid

theorem repository?_rename : g'.repository? (ρ id) = (g.repository? id).map (·.rename ρ) := by
  obtain ⟨r, hr, hr'⟩ := h.repository id hid
  rw [hr, hr', Option.map_some]

theorem includesOf_rename : g'.includesOf (ρ id) = (g.includesOf id).map (·.rename ρ) := by
  obtain ⟨r, hr, hr'⟩ := h.repository id hid
  rw [includesOf_eq hr, includesOf_eq hr', Repository.rename]

theorem boundOf_rename : g'.boundOf (ρ id) = (g.boundOf id).map ρ := by
  rw [boundOf, h.includesOf_rename hid, boundOf, List.filterMap_map, List.map_filterMap]
  rfl

theorem namespaceName_rename : g'.namespaceName (ρ id) = g.namespaceName id := by
  obtain ⟨r, hr, hr'⟩ := h.repository id hid
  rw [namespaceName_eq hr, namespaceName_eq hr']
  rfl

theorem canonicalName_rename : g'.canonicalName (ρ id) = g.canonicalName id := by
  obtain ⟨r, hr, hr'⟩ := h.repository id hid
  rw [canonicalName_eq hr, canonicalName_eq hr']
  rfl

theorem reachable_rename : g'.reachable (ρ id) = (g.reachable id).map ρ :=
  Reach.nodes_map h.inj h.closed (fun _ ha => h.boundOf_rename ha) h.length_le_size h.length_le_size'
    hid

theorem mem_of_path {a : RepositoryId}
    (hpath : Relation.ReflTransGen (fun a b => b ∈ g.boundOf a) id a) : a ∈ ids := by
  induction hpath with
  | refl => exact hid
  | tail _ hedge ih => exact h.closed _ ih _ hedge

theorem mem_of_mem_reachable {a : RepositoryId} (ha : a ∈ g.reachable id) : a ∈ ids :=
  h.mem_of_path hid (path_of_mem_reachable ha)

theorem findIn_rename (name : String) :
    g'.findIn (ρ id) name = (g.findIn id name).map (·.rename ρ) := by
  obtain ⟨r, hr, hr'⟩ := h.repository id hid
  rw [findIn, findIn, hr, hr']
  show ((r.content.lookup name).bind _) = ((r.content.lookup name).bind _).map _
  cases r.content.lookup name <;> rfl

end Repository

theorem lookupVia_rename (qualifier : Option String) (name : String) {dependency : Include}
    (hbound : ∀ target, dependency.bound = some target → target ∈ ids) :
    g'.lookupVia qualifier name (dependency.rename ρ) =
      (g.lookupVia qualifier name dependency).map (Except.map (·.rename ρ)) := by
  unfold lookupVia
  show (if qualifier.any (· != dependency.key.name) then none else _) = _
  by_cases hqualifier : qualifier.any (· != dependency.key.name)
  · rw [if_pos hqualifier, if_pos hqualifier, Option.map_none]
  · rw [if_neg hqualifier, if_neg hqualifier]
    cases htarget : dependency.bound with
    | none =>
        simp only [Include.rename, htarget, Option.map_none, Option.map_some, Except.map]
        rfl
    | some target =>
        simp only [Include.rename, htarget, Option.map_some,
          h.findIn_rename (hbound target htarget) name, Option.map_map]
        rfl

theorem bound_mem {id : RepositoryId} (hid : id ∈ ids) {dependency : Include}
    (hmem : dependency ∈ (g.reachable id).flatMap g.includesOf) :
    ∀ target, dependency.bound = some target → target ∈ ids := by
  intro target htarget
  obtain ⟨a, ha, hmem⟩ := List.mem_flatMap.mp hmem
  exact h.closed a (h.mem_of_mem_reachable hid ha) target
    (mem_boundOf.mpr ⟨dependency, hmem, htarget⟩)

theorem lookupSymbol_rename {id : RepositoryId} (hid : id ∈ ids) (name : String) :
    g'.lookupSymbol (ρ id) name = (g.lookupSymbol id name).map (·.rename ρ) := by
  have hincludes : (g'.reachable (ρ id)).flatMap g'.includesOf =
      ((g.reachable id).flatMap g.includesOf).map (·.rename ρ) := by
    rw [h.reachable_rename hid, List.flatMap_map, List.map_flatMap]
    exact List.flatMap_congr fun a ha => h.includesOf_rename (h.mem_of_mem_reachable hid ha)
  have hsearch : ∀ qualifier localName,
      ((g'.reachable (ρ id)).flatMap g'.includesOf).findSome? (g'.lookupVia qualifier localName) =
        (((g.reachable id).flatMap g.includesOf).findSome?
          (g.lookupVia qualifier localName)).map (Except.map (·.rename ρ)) := by
    intro qualifier localName
    rw [hincludes, List.findSome?_map, List.map_findSome?]
    exact findSome?_congr fun dependency hmem =>
      h.lookupVia_rename qualifier localName (h.bound_mem hid hmem)
  have hown : ∀ (condition : Bool) localName,
      (if condition then g'.findIn (ρ id) localName else none) =
        (if condition then g.findIn id localName else none).map (·.rename ρ) := by
    intro condition localName
    cases condition
    · rfl
    · exact h.findIn_rename hid localName
  unfold lookupSymbol
  rw [h.namespaceName_rename hid, h.canonicalName_rename hid]
  simp only [hown, hsearch]
  cases (if (splitQualified name).1.isNone || (splitQualified name).1 == some (g.namespaceName id) then
      g.findIn id (splitQualified name).2 else none) with
  | some symbol => rfl
  | none =>
      simp only [Option.map_none]
      split
      · rfl
      · cases ((g.reachable id).flatMap g.includesOf).findSome?
          (g.lookupVia (splitQualified name).1 (splitQualified name).2) <;> rfl

theorem repository_mem_of_lookupSymbol {id : RepositoryId} (hid : id ∈ ids) {name : String}
    {symbol : SymbolRef} (hsymbol : g.lookupSymbol id name = .ok symbol) : symbol.repository ∈ ids :=
  h.mem_of_path hid (path_of_lookupSymbol hsymbol)

/-! ### Symbols -/

section Symbol

variable {symbol : SymbolRef} (hsymbol : symbol.repository ∈ ids)

include hsymbol

theorem qualifiedName_rename : g'.qualifiedName (symbol.rename ρ) = g.qualifiedName symbol := by
  obtain ⟨r, hr, hr'⟩ := h.repository symbol.repository hsymbol
  rw [qualifiedName, qualifiedName, SymbolRef.repository_rename, h.namespaceName_rename hsymbol, hr, hr']
  rfl

theorem managedName_rename {current : RepositoryId} (hcurrent : current ∈ ids) :
    g'.managedName (symbol.rename ρ) (ρ current) = g.managedName symbol current := by
  obtain ⟨r, hr, hr'⟩ := h.repository symbol.repository hsymbol
  have hexternal : (symbol.rename ρ).isExternal (ρ current) = symbol.isExternal current := by
    show (ρ symbol.repository != ρ current) = (symbol.repository != current)
    rw [Bool.eq_iff_iff, bne_iff_ne, bne_iff_ne, not_iff_not]
    exact ⟨h.inj _ hsymbol _ hcurrent, congrArg ρ⟩
  rw [managedName, managedName, hexternal, SymbolRef.repository_rename, h.namespaceName_rename hsymbol,
    hr, hr']
  rfl

theorem isReferenceType_rename :
    g'.isReferenceType (symbol.rename ρ) = g.isReferenceType symbol := by
  obtain ⟨r, hr, hr'⟩ := h.repository symbol.repository hsymbol
  rw [isReferenceType, isReferenceType, SymbolRef.repository_rename, hr, hr']
  rfl

theorem category_rename : g'.category (symbol.rename ρ) = g.category symbol := by
  obtain ⟨r, hr, hr'⟩ := h.repository symbol.repository hsymbol
  rw [category, category, SymbolRef.repository_rename, hr, hr']
  rfl

theorem alias?_rename : g'.alias? (symbol.rename ρ) = g.alias? symbol := by
  obtain ⟨r, hr, hr'⟩ := h.repository symbol.repository hsymbol
  rw [alias?, alias?, SymbolRef.repository_rename, hr, hr']
  rfl

end Symbol

/-! ### Aliases -/

theorem map_qualifiedName_rename {symbols : List SymbolRef}
    (hsymbols : ∀ s ∈ symbols, s.repository ∈ ids) :
    (symbols.map (·.rename ρ)).map g'.qualifiedName = symbols.map g.qualifiedName := by
  rw [List.map_map]
  exact List.map_congr_left fun s hs => h.qualifiedName_rename (hsymbols s hs)

theorem mem_map_rename {symbols : List SymbolRef} (hsymbols : ∀ s ∈ symbols, s.repository ∈ ids)
    {symbol : SymbolRef} (hsymbol : symbol.repository ∈ ids) :
    symbol.rename ρ ∈ symbols.map (·.rename ρ) ↔ symbol ∈ symbols := by
  rw [List.mem_map]
  constructor
  · rintro ⟨other, hother, heq⟩
    obtain ⟨hrepository, hkind, hindex⟩ := SymbolRef.mk.inj heq
    have hsame := h.inj _ (hsymbols other hother) _ hsymbol hrepository
    have hother' : other = symbol := by
      cases other
      cases symbol
      simp_all
    rwa [← hother']
  · intro hmem
    exact ⟨symbol, hmem, rfl⟩

theorem followAliases_rename (steps : Nat) {current : SymbolRef} {passed : List SymbolRef}
    (hcurrent : current.repository ∈ ids) (hpassed : ∀ s ∈ passed, s.repository ∈ ids) :
    g'.followAliases steps (current.rename ρ) (passed.map (·.rename ρ)) =
      (g.followAliases steps current passed).map (·.rename ρ) := by
  induction steps generalizing current passed with
  | zero =>
      rw [followAliases, followAliases, ← List.map_reverse, h.map_qualifiedName_rename]
      · rfl
      · exact fun s hs => hpassed s (List.mem_reverse.mp hs)
  | succ steps ih =>
      rw [followAliases, followAliases, h.alias?_rename hcurrent]
      cases g.alias? current with
      | none => rfl
      | some found =>
          simp only [SymbolRef.repository_rename, h.lookupSymbol_rename hcurrent]
          cases nextName? found.target.spec with
          | none => rfl
          | some name =>
              simp only
              cases hnext : g.lookupSymbol current.repository name with
              | error fault => rfl
              | ok next =>
                  have hnext' := h.repository_mem_of_lookupSymbol hcurrent hnext
                  have hall : ∀ s ∈ next :: passed, s.repository ∈ ids :=
                    List.forall_mem_cons.mpr ⟨hnext', hpassed⟩
                  simp only [Except.map, List.contains_iff_mem, h.mem_map_rename hpassed hnext',
                    ← List.map_cons]
                  by_cases hmem : next ∈ passed
                  · rw [if_pos hmem, if_pos hmem, ← List.map_reverse, h.map_qualifiedName_rename]
                    exact fun s hs => hall s (List.mem_reverse.mp hs)
                  · rw [if_neg hmem, if_neg hmem]
                    exact ih hnext' hall

/-- Names lead to the same targets. The graphs may have different numbers of aliases, but either number
of steps is enough for both. -/
theorem resolveName_rename {id : RepositoryId} (hid : id ∈ ids) (name : String) :
    g'.resolveName (ρ id) name = (g.resolveName id name).map (·.rename ρ) := by
  rw [resolveName, resolveName, h.lookupSymbol_rename hid]
  cases hstart : g.lookupSymbol id name with
  | error fault => rfl
  | ok start =>
      have hstart' := h.repository_mem_of_lookupSymbol hid hstart
      show g'.followAliases (g'.aliasCount + 1) (start.rename ρ) [start.rename ρ] =
        (g.followAliases (g.aliasCount + 1) start [start]).map (·.rename ρ)
      have hall : ∀ s ∈ [start], s.repository ∈ ids := by simpa using hstart'
      calc g'.followAliases (g'.aliasCount + 1) (start.rename ρ) [start.rename ρ]
          = g'.followAliases (g'.aliasCount + 1 + g.aliasCount) (start.rename ρ) [start.rename ρ] :=
            (followAliases_add (passed_start g' _) (by simp) g.aliasCount).symm
        _ = (g.followAliases (g'.aliasCount + 1 + g.aliasCount) start [start]).map (·.rename ρ) :=
            h.followAliases_rename _ hstart' hall
        _ = (g.followAliases (g.aliasCount + 1) start [start]).map (·.rename ρ) := by
            rw [show g'.aliasCount + 1 + g.aliasCount = g.aliasCount + 1 + g'.aliasCount by omega,
              followAliases_add (passed_start g start) (by simp) g'.aliasCount]

theorem aliasHop_rename {id : RepositoryId} (hid : id ∈ ids) (s : Spelling) :
    g'.aliasHop (ρ id) s = g.aliasHop id s := by
  rw [aliasHop, h.reachable_rename hid, List.findSome?_map, aliasHop]
  refine findSome?_congr fun a ha => ?_
  obtain ⟨r, hr, hr'⟩ := h.repository a (h.mem_of_mem_reachable hid ha)
  rw [Function.comp_apply, hr, hr']
  rfl

theorem repository_mem_of_followAliases (steps : Nat) {current : SymbolRef} {passed : List SymbolRef}
    (hcurrent : current.repository ∈ ids) {symbol : SymbolRef}
    (hsymbol : g.followAliases steps current passed = .ok (.symbol symbol)) :
    symbol.repository ∈ ids := by
  induction steps generalizing current passed with
  | zero => cases hsymbol
  | succ steps ih =>
      rw [followAliases] at hsymbol
      split at hsymbol
      · cases hsymbol
        exact hcurrent
      · split at hsymbol
        · cases hsymbol
        · split at hsymbol
          · cases hsymbol
          · next next hnext =>
              split at hsymbol
              · cases hsymbol
              · exact ih (h.repository_mem_of_lookupSymbol hcurrent hnext) hsymbol

theorem repository_mem_of_resolveName {id : RepositoryId} (hid : id ∈ ids) {name : String}
    {symbol : SymbolRef} (hsymbol : g.resolveName id name = .ok (.symbol symbol)) :
    symbol.repository ∈ ids := by
  obtain ⟨start, hstart, hsymbol⟩ := bind_eq_ok.mp hsymbol
  exact h.repository_mem_of_followAliases _ (h.repository_mem_of_lookupSymbol hid hstart) hsymbol

end Transport

end Graph

/-! ### Decided types -/

namespace DecidedType

theorem rename_of_symbol?_eq_none {d : DecidedType} (h : d.symbol? = none)
    (ρ : RepositoryId → RepositoryId) : d.rename ρ = d := by
  obtain ⟨representation, byRef, isArray, isPointer, lengthIndex⟩ := d
  cases representation with
  | symbol address => cases h
  | _ => rfl

theorem within_handle (ids : List RepositoryId) : handle.Within ids := by
  intro symbol hsymbol
  cases hsymbol

theorem isText_rename (d : DecidedType) (ρ : RepositoryId → RepositoryId) :
    (d.rename ρ).isText = d.isText := by
  obtain ⟨representation, byRef, isArray, isPointer, lengthIndex⟩ := d
  cases representation <;> rfl

theorem symbol?_ofClassified {representation : Representation}
    (h : (DecidedType.of representation).symbol? = none) (c : Classification) (isParameter : Bool) :
    (ofClassified representation c isParameter).symbol? = none := by
  unfold ofClassified
  split
  · exact h
  · split
    · exact h
    · split
      · exact h
      · rfl

/-- A type decided by its spelling is no symbol. -/
theorem symbol?_of_ofSpelling {name : Option String} {s : Spelling} {c : Classification}
    {isParameter : Bool} {d : DecidedType} (h : ofSpelling name s c isParameter = .ok (some d)) :
    d.symbol? = none := by
  obtain ⟨representation, hrepresentation, h⟩ := bind_eq_ok.mp h
  cases h' : representation with
  | none =>
      rw [h'] at h
      cases h
  | some representation =>
      rw [h'] at h hrepresentation
      cases h
      refine symbol?_ofClassified ?_ c isParameter
      unfold Representation.ofCategory at hrepresentation
      split at hrepresentation <;> cases hrepresentation <;> rfl

end DecidedType

namespace Graph.Transport

variable {g g' : Graph} {ρ : RepositoryId → RepositoryId} {ids : List RepositoryId}
  (h : g.Transport g' ρ ids) {id : RepositoryId} (hid : id ∈ ids)

include h hid

theorem decideByName_rename (spec : TypeSpec) (isPointer isParameter : Bool) :
    g'.decideByName (ρ id) spec isPointer isParameter =
      (g.decideByName id spec isPointer isParameter).map (·.rename ρ) := by
  rw [decideByName, decideByName, h.canonicalName_rename hid]
  cases spec.name with
  | none => rfl
  | some name =>
      simp only [bind, Except.bind, h.resolveName_rename hid]
      cases g.resolveName id name with
      | error fault => rfl
      | ok target =>
          cases target with
          | symbol address => rfl
          | native target =>
              simp only [Except.map, NameTarget.rename]
              cases target.nativeSpelling with
              | none => rfl
              | some s =>
                  simp only
                  generalize hresult : DecidedType.ofSpelling _ _ _ _ = result
                  rcases result with fault | _ | d
                  · rfl
                  · rfl
                  · have hplain := DecidedType.symbol?_of_ofSpelling hresult
                    show Except.ok d = .ok (d.rename ρ)
                    rw [DecidedType.rename_of_symbol?_eq_none hplain]

theorem decideSpec_rename (spec : TypeSpec) (isParameter : Bool) :
    g'.decideSpec (ρ id) spec isParameter = (g.decideSpec id spec isParameter).map (·.rename ρ) := by
  rw [decideSpec, decideSpec]
  cases spec.nativeSpelling with
  | none =>
      simp only
      split
      · rfl
      · exact h.decideByName_rename hid spec false isParameter
  | some s =>
      simp only
      split
      · rfl
      · rw [h.aliasHop_rename hid]
        simp only [bind, Except.bind]
        generalize hresult : DecidedType.ofSpelling _ _ _ _ = result
        rcases result with fault | _ | d
        · rfl
        · exact h.decideByName_rename hid spec _ isParameter
        · have hplain := DecidedType.symbol?_of_ofSpelling hresult
          show Except.ok d = .ok (d.rename ρ)
          rw [DecidedType.rename_of_symbol?_eq_none hplain]

theorem within_of_decideByName {spec : TypeSpec} {isPointer isParameter : Bool} {d : DecidedType}
    (hd : g.decideByName id spec isPointer isParameter = .ok d) : d.Within ids := by
  rw [decideByName] at hd
  cases hname : spec.name with
  | none =>
      rw [hname] at hd
      cases hd
  | some name =>
      rw [hname] at hd
      obtain ⟨_, -, hd⟩ := bind_eq_ok.mp hd
      obtain ⟨target, htarget, hd⟩ := bind_eq_ok.mp hd
      intro symbol hsymbol
      cases target with
      | symbol address =>
          cases hd
          cases hsymbol
          exact h.repository_mem_of_resolveName hid htarget
      | native target =>
          simp only at hd
          split at hd
          · cases hd
          · obtain ⟨result, hresult, hd⟩ := bind_eq_ok.mp hd
            cases result with
            | none => cases hd
            | some decided =>
                cases hd
                rw [DecidedType.symbol?_of_ofSpelling hresult] at hsymbol
                cases hsymbol

theorem within_of_decideSpec {spec : TypeSpec} {isParameter : Bool} {d : DecidedType}
    (hd : g.decideSpec id spec isParameter = .ok d) : d.Within ids := by
  rw [decideSpec] at hd
  split at hd
  · split at hd
    · cases hd
      exact DecidedType.within_handle ids
    · exact h.within_of_decideByName hid hd
  · split at hd
    · cases hd
      exact DecidedType.within_handle ids
    · obtain ⟨result, hresult, hd⟩ := bind_eq_ok.mp hd
      cases result with
      | none => exact h.within_of_decideByName hid hd
      | some decided =>
          cases hd
          intro symbol hsymbol
          rw [DecidedType.symbol?_of_ofSpelling hresult] at hsymbol
          cases hsymbol

omit hid in
theorem isOpaqueElement_rename {element : DecidedType} (hsymbol : element.Within ids) :
    g'.isOpaqueElement (element.rename ρ) = g.isOpaqueElement element := by
  obtain ⟨representation, byRef, isArray, isPointer, lengthIndex⟩ := element
  cases representation with
  | symbol address => exact h.isReferenceType_rename (hsymbol address rfl)
  | _ => rfl

theorem decideArray_rename (element : TypeSpec) (length : Nat) (isParameter : Bool) :
    g'.decideArray (ρ id) element length isParameter =
      (g.decideArray id element length isParameter).map (·.rename ρ) := by
  rw [decideArray, decideArray, h.decideSpec_rename hid]
  cases hd : g.decideSpec id element isParameter with
  | error fault => rfl
  | ok d =>
      have hopaque := h.isOpaqueElement_rename (h.within_of_decideSpec hid hd)
      have htext : (d.rename ρ).isText = d.isText := DecidedType.isText_rename d ρ
      simp only [bind, Except.bind, Except.map, hopaque, htext]
      split
      · rfl
      · split <;> rfl

/-- Type references are decided alike. -/
theorem decide_rename (reference : TypeReference) :
    g'.decide (ρ id) reference = (g.decide id reference).map (·.rename ρ) := by
  rw [decide, decide]
  split
  · exact h.decideSpec_rename hid _ _
  · split
    · exact h.decideArray_rename hid _ _ _
    · rfl
  · rfl

theorem within_of_decide {reference : TypeReference} {d : DecidedType}
    (hd : g.decide id reference = .ok d) : d.Within ids := by
  have hhandle := DecidedType.within_handle ids
  rw [decide] at hd
  split at hd
  · exact h.within_of_decideSpec hid hd
  · split at hd
    · obtain ⟨element, helement, hd⟩ := bind_eq_ok.mp hd
      split at hd
      · cases hd
        exact hhandle
      · split at hd
        · cases hd
          exact hhandle
        · cases hd
          intro symbol hsymbol
          exact h.within_of_decideSpec hid helement symbol hsymbol
    · cases hd
      exact hhandle
  · cases hd
    exact hhandle

end Graph.Transport

end Interop
