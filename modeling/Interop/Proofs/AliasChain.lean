import Interop.Graph.Lookup
import Interop.Proofs.Traversal
import Mathlib.Data.List.Perm.Subperm
import Mathlib.Logic.Relation

/-! Following aliases. The aliases passed on the way are different ones, so that the steps allowed for
following them never run out, and allowing more of them changes nothing. A name leads to a target if
following the aliases one by one does: `resolveName_eq_ok`. -/

namespace Interop.Graph

open Relation

variable {g : Graph}

/-- The addresses of all aliases. -/
def aliasAddresses (g : Graph) : List SymbolRef :=
  g.repositories.zipIdx.flatMap fun (r, i) =>
    (List.range r.content.aliases.length).map (⟨⟨i⟩, .alias, ·⟩)

theorem length_aliasAddresses (g : Graph) : g.aliasAddresses.length = g.aliasCount := by
  have hfst : (g.repositories.zipIdx.map fun (r, _) => r.content.aliases.length) =
      g.repositories.map (·.content.aliases.length) := by
    conv_rhs => rw [← List.zipIdx_map_fst 0 g.repositories, List.map_map]
    rfl
  simp only [aliasAddresses, aliasCount, List.length_flatMap, List.length_map, List.length_range]
  exact congrArg List.sum hfst

theorem mem_aliasAddresses {symbol : SymbolRef} (h : (g.alias? symbol).isSome) :
    symbol ∈ g.aliasAddresses := by
  rw [alias?] at h
  split at h
  · next hkind =>
      obtain ⟨found, hfound⟩ := Option.isSome_iff_exists.mp h
      obtain ⟨r, hr, hfound⟩ := Option.bind_eq_some_iff.mp hfound
      refine List.mem_flatMap.mpr ⟨(r, symbol.repository.index), ?_, ?_⟩
      · exact List.mk_mem_zipIdx_iff_getElem?.mpr hr
      · refine List.mem_map.mpr ⟨symbol.index, ?_, ?_⟩
        · exact List.mem_range.mpr (List.getElem?_eq_some_iff.mp hfound).1
        · rw [← hkind]
  · cases h

theorem length_le_aliasCount {symbols : List SymbolRef} (hnodup : symbols.Nodup)
    (haliases : ∀ s ∈ symbols, (g.alias? s).isSome) : symbols.length ≤ g.aliasCount := by
  have hsub : ∀ s ∈ symbols, s ∈ g.aliasAddresses := fun s hs => mem_aliasAddresses (haliases s hs)
  rw [← length_aliasAddresses]
  exact (List.subperm_of_subset hnodup hsub).length_le

/-- An alias is followed to another symbol, found by the name of its target. -/
def Follows (g : Graph) (current next : SymbolRef) : Prop :=
  ∃ found name, g.alias? current = some found ∧ nextName? found.target.spec = some name ∧
    g.lookupSymbol current.repository name = .ok next

theorem Follows.isSome {current next : SymbolRef} (h : g.Follows current next) :
    (g.alias? current).isSome := by
  obtain ⟨found, _, hfound, -, -⟩ := h
  exact Option.isSome_iff_exists.mpr ⟨found, hfound⟩

/-- The symbols passed on the way to one, which comes first: the others are different aliases. -/
structure Passed (g : Graph) (current : SymbolRef) (passed : List SymbolRef) : Prop where
  nodup : passed.Nodup
  aliases : ∃ earlier, passed = current :: earlier ∧ ∀ s ∈ earlier, (g.alias? s).isSome

theorem passed_start (g : Graph) (start : SymbolRef) : g.Passed start [start] where
  nodup := by simp
  aliases := ⟨[], rfl, by simp⟩

theorem Passed.hop {current next : SymbolRef} {passed : List SymbolRef} (h : g.Passed current passed)
    (hfollows : g.Follows current next) (hmem : next ∉ passed) : g.Passed next (next :: passed) := by
  obtain ⟨earlier, rfl, haliases⟩ := h.aliases
  exact ⟨List.nodup_cons.mpr ⟨hmem, h.nodup⟩, _, rfl, List.forall_mem_cons.mpr ⟨hfollows.isSome, haliases⟩⟩

theorem Passed.length_le {current : SymbolRef} {passed : List SymbolRef} (h : g.Passed current passed) :
    passed.length ≤ g.aliasCount + 1 := by
  obtain ⟨earlier, rfl, haliases⟩ := h.aliases
  rw [List.length_cons]
  exact Nat.succ_le_succ (length_le_aliasCount (List.nodup_cons.mp h.nodup).2 haliases)

/-- If the symbol itself is an alias too, all symbols passed are different aliases. -/
theorem Passed.length_le_of_isSome {current : SymbolRef} {passed : List SymbolRef}
    (h : g.Passed current passed) (halias : (g.alias? current).isSome) : passed.length ≤ g.aliasCount := by
  obtain ⟨earlier, rfl, haliases⟩ := h.aliases
  exact length_le_aliasCount h.nodup (List.forall_mem_cons.mpr ⟨halias, haliases⟩)

/-- With steps enough for all aliases, further steps change nothing. -/
theorem followAliases_add {current : SymbolRef} {passed : List SymbolRef} (h : g.Passed current passed)
    {steps : Nat} (hsteps : g.aliasCount + 2 ≤ steps + passed.length) (more : Nat) :
    g.followAliases (steps + more) current passed = g.followAliases steps current passed := by
  induction steps generalizing current passed with
  | zero =>
      have := h.length_le
      omega
  | succ steps ih =>
      rw [Nat.add_right_comm, followAliases, followAliases]
      cases hfound : g.alias? current with
      | none => rfl
      | some found =>
          simp only
          cases hname : nextName? found.target.spec with
          | none => rfl
          | some name =>
              simp only
              cases hnext : g.lookupSymbol current.repository name with
              | error fault => rfl
              | ok next =>
                  by_cases hmem : next ∈ passed
                  · simp [hmem]
                  · have hpassed := h.hop ⟨found, name, hfound, hname, hnext⟩ hmem
                    have hrest := ih hpassed (by rw [List.length_cons]; omega)
                    simp [hmem, hrest]

/-! ### Where aliases lead -/

/-- Following aliases from a symbol on ends at a target after some steps. -/
inductive LeadsIn (g : Graph) : Nat → SymbolRef → NameTarget → Prop
  | symbol {current : SymbolRef} (h : g.alias? current = none) : LeadsIn g 0 current (.symbol current)
  | native {current : SymbolRef} {found : Alias} (h : g.alias? current = some found)
    (hname : nextName? found.target.spec = none) : LeadsIn g 0 current (.native found.target.spec)
  | step {steps : Nat} {current next : SymbolRef} {target : NameTarget} (h : g.Follows current next)
    (hrest : LeadsIn g steps next target) : LeadsIn g (steps + 1) current target

/-- Following aliases from a symbol on ends at a target. -/
def Leads (g : Graph) (current : SymbolRef) (target : NameTarget) : Prop :=
  ∃ steps, g.LeadsIn steps current target

theorem Follows.eq {current next other : SymbolRef} (h : g.Follows current next)
    (h' : g.Follows current other) : next = other := by
  obtain ⟨found, name, hfound, hname, hnext⟩ := h
  obtain ⟨found', name', hfound', hname', hnext'⟩ := h'
  rw [hfound] at hfound'
  cases hfound'
  rw [hname] at hname'
  cases hname'
  rw [hnext] at hnext'
  exact Except.ok.inj hnext'

/-- From an alias that is followed, the rest of the way is one step shorter. -/
theorem LeadsIn.of_follows {steps : Nat} {current next : SymbolRef} {target : NameTarget}
    (h : g.LeadsIn steps current target) (hnext : g.Follows current next) :
    ∃ rest, steps = rest + 1 ∧ g.LeadsIn rest next target := by
  cases h with
  | symbol hnone =>
      obtain ⟨found, name, hfound, -, -⟩ := hnext
      rw [hnone] at hfound
      cases hfound
  | native hfound hnone =>
      obtain ⟨found, name, hfound', hname, -⟩ := hnext
      rw [hfound] at hfound'
      cases hfound'
      rw [hnone] at hname
      cases hname
  | step hfollows hrest => exact ⟨_, rfl, hfollows.eq hnext ▸ hrest⟩

theorem leads_of_follows {current next : SymbolRef} (hnext : g.Follows current next)
    (target : NameTarget) : g.Leads current target ↔ g.Leads next target := by
  constructor
  · rintro ⟨steps, h⟩
    obtain ⟨rest, -, hrest⟩ := h.of_follows hnext
    exact ⟨rest, hrest⟩
  · rintro ⟨steps, h⟩
    exact ⟨steps + 1, .step hnext h⟩

/-- From a symbol that comes back to itself, all that it leads to comes back to itself. -/
theorem transGen_self {current next : SymbolRef} (hpath : ReflTransGen g.Follows current next)
    (hloop : TransGen g.Follows current current) : TransGen g.Follows next next := by
  induction hpath with
  | refl => exact hloop
  | tail _ hfollows ih =>
      obtain ⟨other, hother, hback⟩ := TransGen.head'_iff.mp ih
      obtain rfl := hother.eq hfollows
      exact TransGen.tail' hback hfollows

/-- A way that ends does not come back to where it starts. -/
theorem LeadsIn.not_transGen {steps : Nat} {current : SymbolRef} {target : NameTarget}
    (h : g.LeadsIn steps current target) : ¬TransGen g.Follows current current := by
  intro hloop
  induction h with
  | symbol hnone =>
      obtain ⟨next, hnext, -⟩ := TransGen.head'_iff.mp hloop
      obtain ⟨_, heq, -⟩ := (LeadsIn.symbol hnone).of_follows hnext
      cases heq
  | native hfound hname =>
      obtain ⟨next, hnext, -⟩ := TransGen.head'_iff.mp hloop
      obtain ⟨_, heq, -⟩ := (LeadsIn.native hfound hname).of_follows hnext
      cases heq
  | step hfollows _ ih => exact ih (transGen_self (.single hfollows) hloop)

theorem leads_of_followAliases {steps : Nat} {current : SymbolRef} {passed : List SymbolRef}
    {target : NameTarget} (h : g.followAliases steps current passed = .ok target) :
    g.Leads current target := by
  induction steps generalizing current passed with
  | zero => cases h
  | succ steps ih =>
      rw [followAliases] at h
      split at h
      · next hnone =>
          cases h
          exact ⟨0, .symbol hnone⟩
      · next found hfound =>
          split at h
          · next hname =>
              cases h
              exact ⟨0, .native hfound hname⟩
          · next name hname =>
              split at h
              · cases h
              · next next hnext =>
                  split at h
                  · cases h
                  · exact (leads_of_follows ⟨found, name, hfound, hname, hnext⟩ target).mpr (ih h)

/-- A way that ends is followed to its end if all symbols passed lie on it and the steps suffice. -/
theorem LeadsIn.followAliases {length steps : Nat} {current : SymbolRef} {passed : List SymbolRef}
    {target : NameTarget} (h : g.LeadsIn length current target) (hsteps : length < steps)
    (hpassed : ∀ s ∈ passed, ReflTransGen g.Follows s current) :
    g.followAliases steps current passed = .ok target := by
  induction h generalizing steps passed with
  | symbol hnone =>
      obtain ⟨rest, rfl⟩ := Nat.exists_eq_succ_of_ne_zero (Nat.ne_of_gt hsteps)
      rw [Graph.followAliases, hnone]
  | native hfound hname =>
      obtain ⟨rest, rfl⟩ := Nat.exists_eq_succ_of_ne_zero (Nat.ne_of_gt hsteps)
      simp only [Graph.followAliases, hfound, hname]
  | @step length current next target hfollows hrest ih =>
      obtain ⟨rest, rfl⟩ := Nat.exists_eq_succ_of_ne_zero (Nat.ne_of_gt (Nat.zero_lt_of_lt hsteps))
      have hfresh : next ∉ passed := fun hmem =>
        hrest.not_transGen (TransGen.tail' (hpassed next hmem) hfollows)
      have hall : ∀ s ∈ next :: passed, ReflTransGen g.Follows s next :=
        List.forall_mem_cons.mpr ⟨.refl, fun s hs => (hpassed s hs).tail hfollows⟩
      have htail := ih (Nat.lt_of_succ_lt_succ hsteps) hall
      obtain ⟨found, name, hfound, hname, hnext⟩ := hfollows
      simp only [Graph.followAliases, hfound, hname, hnext, List.contains_iff_mem, hfresh, if_false]
      exact htail

/-- From an alias that is followed by a name, the way goes on where the name leads. -/
theorem leads_iff_of_nextName? {current : SymbolRef} {found : Alias} {name : String}
    (hfound : g.alias? current = some found) (hname : nextName? found.target.spec = some name)
    (target : NameTarget) : g.Leads current target ↔
      ∃ next, g.lookupSymbol current.repository name = .ok next ∧ g.Leads next target := by
  constructor
  · rintro ⟨_, hleads⟩
    cases hleads with
    | symbol hnone =>
        rw [hfound] at hnone
        cases hnone
    | native hfound' hnone =>
        rw [hfound] at hfound'
        cases hfound'
        rw [hname] at hnone
        cases hnone
    | @step steps _ next _ hfollows hrest =>
        obtain ⟨found', name', hfound', hname', hnext⟩ := hfollows
        rw [hfound] at hfound'
        cases hfound'
        rw [hname] at hname'
        cases hname'
        exact ⟨next, hnext, steps, hrest⟩
  · rintro ⟨next, hnext, hleads⟩
    exact (leads_of_follows ⟨found, name, hfound, hname, hnext⟩ target).mpr hleads

/-- A name leads to a target if it finds a symbol from which following the aliases ends there. -/
theorem resolveName_eq_ok {id : RepositoryId} {name : String} {target : NameTarget} :
    g.resolveName id name = .ok target ↔
      ∃ start, g.lookupSymbol id name = .ok start ∧ g.Leads start target := by
  rw [resolveName, bind_eq_ok]
  refine exists_congr fun start => and_congr_right fun _ => ?_
  constructor
  · exact leads_of_followAliases
  · rintro ⟨length, h⟩
    rw [← followAliases_add (passed_start g start) (by simp) length]
    exact h.followAliases (by omega) (by simp [ReflTransGen.refl])

end Interop.Graph
