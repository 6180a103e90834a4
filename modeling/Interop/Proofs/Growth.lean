import Interop.Proofs.AliasChain
import Interop.Proofs.References
import Interop.Proofs.Locality

/-! Growth. A graph that registers and links keeps its repositories, so that what was decided for a linked
repository stays decided. For a repository that was not linked, only its own symbols could be found: these
stay found. But a spelling that its own alias table does not know may come to be replaced by an alias of
an include, once this is bound. Main statement: `decide_foldl`. -/

namespace Interop

/-- The scalar type that a reference is decided by: its own, or that of its elements. -/
def TypeReference.scalar? (reference : TypeReference) : Option TypeSpec :=
  match reference.array with
  | none => some reference.spec
  | some ⟨some _, _, some element⟩ => if element.isTyped then some element else none
  | some _ => none

namespace Graph

/-- Another graph has the same repositories, and perhaps more; includes may be bound there. -/
def Grows (g g' : Graph) : Prop :=
  ∀ id r, g.repository? id = some r → ∃ r', g'.repository? id = some r' ∧ r'.content = r.content

/-- The alias tables that a repository has come to see replace a spelling that is decided by. -/
def Overtakes (g g' : Graph) (id : RepositoryId) (reference : TypeReference) : Prop :=
  ∃ spec s, reference.scalar? = some spec ∧ spec.nativeSpelling = some s ∧ s.isAlwaysHandle = false ∧
    g.aliasHop id s = none ∧ (g'.aliasHop id s).isSome

/-! ### Repositories none of whose includes is bound -/

section Unbound

variable {g : Graph} {id : RepositoryId} (hunbound : ∀ dependency ∈ g.includesOf id, dependency.bound = none)

include hunbound

theorem boundOf_of_unbound : g.boundOf id = [] := List.filterMap_eq_nil_iff.mpr hunbound

theorem reachable_of_unbound : g.reachable id = [id] :=
  Reach.nodes_of_next_eq_nil (boundOf_of_unbound hunbound) g.size

/-- Only its own alias table is looked into. -/
theorem aliasHop_of_unbound (s : Spelling) :
    g.aliasHop id s = (g.repository? id).bind (·.aliasTable.hop s) := by
  rw [aliasHop, reachable_of_unbound hunbound, List.findSome?_cons, List.findSome?_nil]
  cases (g.repository? id).bind (·.aliasTable.hop s) <;> rfl

theorem transport_of_unbound {r : Repository} (hr : g.repository? id = some r) :
    g.Transport g (fun a => a) [id] where
  nodup := by simp
  inj _ _ _ _ heq := heq
  closed a ha b hb := by
    obtain rfl := List.mem_singleton.mp ha
    rw [boundOf_of_unbound hunbound] at hb
    cases hb
  repository a ha := by
    obtain rfl := List.mem_singleton.mp ha
    exact ⟨r, hr, by rw [Repository.rename_id, hr]⟩

/-- Only its own symbols are found. -/
theorem repository_of_lookupSymbol {r : Repository} (hr : g.repository? id = some r) {name : String}
    {symbol : SymbolRef} (hsymbol : g.lookupSymbol id name = .ok symbol) : symbol.repository = id :=
  List.mem_singleton.mp <|
    (transport_of_unbound hunbound hr).repository_mem_of_lookupSymbol (List.mem_singleton_self id) hsymbol

end Unbound

/-! ### What stays -/

namespace Grows

variable {g g' g'' : Graph} (h : g.Grows g')

theorem refl (g : Graph) : g.Grows g := fun _ r hr => ⟨r, hr, rfl⟩

include h

theorem trans (h' : g'.Grows g'') : g.Grows g'' := by
  intro id r hr
  obtain ⟨r', hr', hcontent⟩ := h id r hr
  obtain ⟨r'', hr'', hcontent'⟩ := h' id r' hr'
  exact ⟨r'', hr'', hcontent'.trans hcontent⟩

/-- Declared references stay as they are. -/
theorem referenceAt?_eq_some {site : Site} {reference : TypeReference}
    (hreference : g.referenceAt? site = some reference) : g'.referenceAt? site = some reference := by
  obtain ⟨r, hr, hreference⟩ := Option.bind_eq_some_iff.mp hreference
  obtain ⟨r', hr', hcontent⟩ := h _ r hr
  rw [referenceAt?, hr', Option.bind_some, hcontent, hreference]

variable {id : RepositoryId} {r : Repository} (hr : g.repository? id = some r)

include hr

theorem namespaceName_eq : g'.namespaceName id = g.namespaceName id := by
  obtain ⟨r', hr', hcontent⟩ := h id r hr
  simp only [namespaceName, hr, hr', Option.elim_some, Repository.key, hcontent]

theorem findIn_eq (name : String) : g'.findIn id name = g.findIn id name := by
  obtain ⟨r', hr', hcontent⟩ := h id r hr
  simp only [findIn, hr, hr', Option.bind_eq_bind, Option.bind_some, hcontent]

theorem hop_eq (s : Spelling) :
    (g'.repository? id).bind (·.aliasTable.hop s) = (g.repository? id).bind (·.aliasTable.hop s) := by
  obtain ⟨r', hr', hcontent⟩ := h id r hr
  simp only [hr, hr', Option.bind_some, Repository.aliasTable, hcontent]

theorem alias?_eq {symbol : SymbolRef} (hsymbol : symbol.repository = id) :
    g'.alias? symbol = g.alias? symbol := by
  obtain ⟨r', hr', hcontent⟩ := h id r hr
  simp only [alias?, hsymbol, hr, hr', Option.bind_some, hcontent]

theorem isReferenceType_eq {symbol : SymbolRef} (hsymbol : symbol.repository = id) :
    g'.isReferenceType symbol = g.isReferenceType symbol := by
  obtain ⟨r', hr', hcontent⟩ := h id r hr
  simp only [isReferenceType, hsymbol, hr, hr', Option.any_some, hcontent]

variable (hunbound : ∀ dependency ∈ g.includesOf id, dependency.bound = none)

include hunbound

/-- What its own alias table replaces is replaced in the same way later. -/
theorem aliasHop_of_isSome {s : Spelling} (hsome : (g.aliasHop id s).isSome) :
    g'.aliasHop id s = g.aliasHop id s := by
  obtain ⟨rest, hrest⟩ := Reach.exists_nodes_eq_cons g'.boundOf g'.size id
  obtain ⟨target, htarget⟩ := Option.isSome_iff_exists.mp hsome
  rw [htarget]
  rw [aliasHop_of_unbound hunbound, ← h.hop_eq hr] at htarget
  rw [aliasHop, reachable, hrest, List.findSome?_cons, htarget]

/-- What is found among its own symbols is found later. -/
theorem lookupSymbol_eq_ok {name : String} {symbol : SymbolRef}
    (hsymbol : g.lookupSymbol id name = .ok symbol) : g'.lookupSymbol id name = .ok symbol := by
  simp only [lookupSymbol, h.namespaceName_eq hr, h.findIn_eq hr] at hsymbol ⊢
  split at hsymbol
  · exact hsymbol
  · split at hsymbol
    · cases hsymbol
    · cases hsearch : ((g.reachable id).flatMap g.includesOf).findSome?
          (g.lookupVia (splitQualified name).1 (splitQualified name).2) with
      | none =>
          rw [hsearch] at hsymbol
          cases hsymbol
      | some result =>
          rw [hsearch, Option.getD_some] at hsymbol
          obtain ⟨dependency, hmem, hvia⟩ := List.exists_of_findSome?_eq_some hsearch
          rw [reachable_of_unbound hunbound, List.flatMap_singleton] at hmem
          rw [lookupVia, hunbound dependency hmem] at hvia
          split at hvia
          · cases hvia
          · cases hvia
            cases hsymbol

/-- A way through its own aliases that ends is the same later. -/
theorem leadsIn {steps : Nat} {current : SymbolRef} {target : NameTarget} (hleads : g.LeadsIn steps current target)
    (hcurrent : current.repository = id) : g'.LeadsIn steps current target := by
  induction hleads with
  | symbol hnone => exact .symbol ((h.alias?_eq hr hcurrent).trans hnone)
  | native hfound hname => exact .native ((h.alias?_eq hr hcurrent).trans hfound) hname
  | step hfollows _ ih =>
      obtain ⟨found, name, hfound, hname, hnext⟩ := hfollows
      rw [hcurrent] at hnext
      have hrepository := repository_of_lookupSymbol hunbound hr hnext
      refine .step ⟨found, name, (h.alias?_eq hr hcurrent).trans hfound, hname, ?_⟩ (ih hrepository)
      rw [hcurrent, h.lookupSymbol_eq_ok hr hunbound hnext]

theorem resolveName_eq_ok {name : String} {target : NameTarget} (htarget : g.resolveName id name = .ok target) :
    g'.resolveName id name = .ok target := by
  obtain ⟨start, hstart, steps, hleads⟩ := Graph.resolveName_eq_ok.mp htarget
  have hrepository := repository_of_lookupSymbol hunbound hr hstart
  have hstart' := h.lookupSymbol_eq_ok hr hunbound hstart
  exact Graph.resolveName_eq_ok.mpr ⟨start, hstart', steps, h.leadsIn hr hunbound hleads hrepository⟩

theorem decideByName_eq_ok {spec : TypeSpec} {isPointer isParameter : Bool} {d : DecidedType}
    (hd : g.decideByName id spec isPointer isParameter = .ok d) :
    g'.decideByName id spec isPointer isParameter = .ok d := by
  rw [decideByName] at hd ⊢
  cases hname : spec.name with
  | none =>
      rw [hname] at hd
      cases hd
  | some name =>
      rw [hname] at hd
      obtain ⟨_, hok, hd⟩ := bind_eq_ok.mp hd
      cases hok
      obtain ⟨target, htarget, hd⟩ := bind_eq_ok.mp hd
      refine bind_eq_ok.mpr ⟨name, rfl, bind_eq_ok.mpr ⟨target, h.resolveName_eq_ok hr hunbound htarget, ?_⟩⟩
      cases target with
      | symbol address => exact hd
      | native target =>
          simp only at hd ⊢
          split at hd
          · cases hd
          · obtain ⟨result, hresult, hd⟩ := bind_eq_ok.mp hd
            refine bind_eq_ok.mpr ⟨result, hresult, ?_⟩
            cases result with
            | none => cases hd
            | some decided => exact hd

/-- A decision on a scalar type stays, unless another alias table comes to replace its spelling. -/
theorem decideSpec_eq_ok {spec : TypeSpec} {isParameter : Bool} {d : DecidedType}
    (hd : g.decideSpec id spec isParameter = .ok d) :
    g'.decideSpec id spec isParameter = .ok d ∨
      ∃ s, spec.nativeSpelling = some s ∧ s.isAlwaysHandle = false ∧ g.aliasHop id s = none ∧
        (g'.aliasHop id s).isSome := by
  rw [decideSpec] at hd ⊢
  split at hd
  · left
    split at hd
    · next hname => rwa [if_pos hname]
    · next hname =>
        rw [if_neg hname]
        exact h.decideByName_eq_ok hr hunbound hd
  · next s hs =>
      split at hd
      · next halways =>
          left
          rwa [if_pos halways]
      · next halways =>
          by_cases hhop : g'.aliasHop id s = g.aliasHop id s
          · left
            rw [if_neg halways, hhop]
            obtain ⟨result, hresult, hd⟩ := bind_eq_ok.mp hd
            refine bind_eq_ok.mpr ⟨result, hresult, ?_⟩
            cases result with
            | none => exact h.decideByName_eq_ok hr hunbound hd
            | some decided => exact hd
          · have hnone : g.aliasHop id s = none := by
              by_contra hsome
              exact hhop (h.aliasHop_of_isSome hr hunbound (Option.isSome_iff_ne_none.mpr hsome))
            rw [hnone] at hhop
            exact Or.inr ⟨s, hs, by simpa using halways, hnone, Option.isSome_iff_ne_none.mpr hhop⟩

theorem isOpaqueElement_eq {spec : TypeSpec} {isParameter : Bool} {d : DecidedType}
    (hd : g.decideSpec id spec isParameter = .ok d) : g'.isOpaqueElement d = g.isOpaqueElement d := by
  have hwithin := (transport_of_unbound hunbound hr).within_of_decideSpec (List.mem_singleton_self id) hd
  obtain ⟨representation, byRef, isArray, isPointer, lengthIndex⟩ := d
  cases representation with
  | symbol address => exact h.isReferenceType_eq hr (List.mem_singleton.mp (hwithin address rfl))
  | _ => rfl

/-- A decision for a repository none of whose includes is bound stays, unless it is overtaken. -/
theorem decide_eq_ok {reference : TypeReference} {d : DecidedType} (hd : g.decide id reference = .ok d) :
    g'.decide id reference = .ok d ∨ g.Overtakes g' id reference := by
  obtain ⟨spec, _ | ⟨_ | length, _, _ | element⟩, context⟩ := reference
  · rcases h.decideSpec_eq_ok hr hunbound hd with hd' | ⟨s, hs⟩
    · exact Or.inl hd'
    · exact Or.inr ⟨spec, s, rfl, hs⟩
  · exact Or.inl hd
  · exact Or.inl hd
  · exact Or.inl hd
  · simp only [decide] at hd ⊢
    split at hd
    · next htyped =>
        obtain ⟨decided, hdecided, hrest⟩ := bind_eq_ok.mp hd
        rcases h.decideSpec_eq_ok hr hunbound hdecided with hdecided' | ⟨s, hs⟩
        · left
          rw [if_pos htyped]
          refine bind_eq_ok.mpr ⟨decided, hdecided', ?_⟩
          rwa [h.isOpaqueElement_eq hr hunbound hdecided]
        · exact Or.inr ⟨element, s, if_pos htyped, hs⟩
    · next htyped =>
        left
        rwa [if_neg htyped]

end Grows

end Graph

/-! ### Along a history -/

theorem DecidedType.rename_id (d : DecidedType) : d.rename (fun a => a) = d := by
  obtain ⟨representation, byRef, isArray, isPointer, lengthIndex⟩ := d
  cases representation <;> rfl

namespace History

variable {h : History} (hh : h.Consistent)

include hh

theorem grows_step (call : GraphCall) : h.graph.Grows (h.step call).graph := by
  have heffect := hh.effect_step call
  generalize h.step call = h' at heffect ⊢
  cases heffect with
  | unchanged => exact .refl h.graph
  | registered d added _ _ =>
      intro id r hr
      have hlt := Graph.lt_of_repository? hr
      refine ⟨r, ?_, rfl⟩
      rw [Graph.repository?_extend, if_neg (by omega), hr]
  | linked order g _ hbinds _ _ =>
      intro id r hr
      have hmap := hbinds.map_repository? id
      rw [hr, Option.map_some, Option.map_eq_some_iff] at hmap
      obtain ⟨r', hr', hunlinked⟩ := hmap
      exact ⟨r', hr', congrArg (·.content) hunlinked⟩

theorem grows_foldl (calls : List GraphCall) : h.graph.Grows (calls.foldl step h).graph := by
  induction calls generalizing h with
  | nil => exact .refl h.graph
  | cons call calls ih => exact (grows_step hh call).trans (ih (hh.step call))

/-- A decision stays, unless it was taken for a repository that was not linked, and is overtaken. -/
theorem decide_foldl (calls : List GraphCall) {id : RepositoryId} {r : Repository}
    (hr : h.graph.repository? id = some r) {reference : TypeReference} {d : DecidedType}
    (hd : h.graph.decide id reference = .ok d) :
    (calls.foldl step h).graph.decide id reference = .ok d ∨
      id ∉ h.graph.buildOrder ∧ h.graph.Overtakes (calls.foldl step h).graph id reference := by
  by_cases hid : id ∈ h.graph.buildOrder
  · left
    rw [(sameAnswers_foldl hh calls hid).decide, hd, Except.map, DecidedType.rename_id]
  · have hunbound := hh.unbound id fun hlinked => hid (hh.perm.mem_iff.mpr hlinked)
    exact ((grows_foldl hh calls).decide_eq_ok hr hunbound hd).imp_right fun hovertakes => ⟨hid, hovertakes⟩

end History

end Interop
