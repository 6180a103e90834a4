import Interop.Proofs.NameSearch
import Interop.Proofs.Typedef

/-! The trail of a name: the symbol that it stands for, and those that aliases are followed to from there, each
looked up from the repository that declares the alias before it. A name is resolved by the end of its trail: a
symbol that is no alias, an alias of a known native type, a name that is not found, or the first alias that
the trail comes back to. There are at most as many look-ups as aliases, and one. Main statement:
`resolveName_follows_trail`. -/

namespace Interop

namespace Graph

open Relation

variable {g : Graph} {id : RepositoryId} {name : String} {current next : SymbolRef}
  {earlier passed : List SymbolRef} {lookups : Nat} {result : Except Fault NameTarget}

/-! ### The trail -/

/-- The symbols on the trail of a name, the last one first. -/
inductive Trail (g : Graph) (id : RepositoryId) (name : String) : List SymbolRef → Prop
  | start {first : SymbolRef} (h : g.lookupSymbol id name = .ok first) : Trail g id name [first]
  | hop {current next : SymbolRef} {earlier : List SymbolRef} (h : Trail g id name (current :: earlier))
    (hnext : g.Follows current next) : Trail g id name (next :: current :: earlier)

namespace Trail

theorem follows (h : g.Trail id name (next :: current :: earlier)) : g.Follows current next := by
  cases h with
  | hop _ hnext => exact hnext

theorem tail (h : g.Trail id name (next :: current :: earlier)) : g.Trail id name (current :: earlier) := by
  cases h with
  | hop h _ => exact h

/-- Every symbol of the trail leads to its end. -/
theorem reflTransGen (h : g.Trail id name (current :: earlier)) :
    ∀ s ∈ current :: earlier, ReflTransGen g.Follows s current := by
  generalize htrail : current :: earlier = trail at h
  induction h generalizing current earlier with
  | start =>
      cases htrail
      simp [ReflTransGen.refl]
  | hop _ hnext ih =>
      cases htrail
      intro s hs
      rcases List.mem_cons.mp hs with rfl | hs
      · exact .refl
      · exact (ih rfl s hs).tail hnext

/-- A trail whose end does not lead back to itself has no symbol twice. -/
theorem nodup (h : g.Trail id name passed) (hend : ∀ current ∈ passed.head?, ¬TransGen g.Follows current current) :
    passed.Nodup := by
  induction h with
  | start => simp
  | @hop current next earlier h hnext ih =>
      have hloop : ¬TransGen g.Follows next next := hend next rfl
      refine List.nodup_cons.mpr ⟨fun hmem => hloop ?_, ih fun other hother hback => hloop ?_⟩
      · exact TransGen.tail' (h.reflTransGen next hmem) hnext
      · obtain rfl : current = other := Option.some.inj hother
        exact transGen_self (.single hnext) hback

end Trail

/-! ### Following it -/

/-- From a symbol on, with the symbols that were passed so far, some number of look-ups lead to a result. -/
inductive Walks (g : Graph) : SymbolRef → List SymbolRef → Nat → Except Fault NameTarget → Prop
  | symbol {current : SymbolRef} {passed : List SymbolRef} (h : g.alias? current = none) :
    Walks g current passed 0 (.ok (.symbol current))
  | native {current : SymbolRef} {passed : List SymbolRef} {found : Alias} (h : g.alias? current = some found)
    (hname : nextName? found.target.spec = none) :
    Walks g current passed 0 (.ok (.native found.target.spec))
  | missed {current : SymbolRef} {passed : List SymbolRef} {found : Alias} {name : String} {fault : Fault}
    (h : g.alias? current = some found) (hname : nextName? found.target.spec = some name)
    (hmissed : g.lookupSymbol current.repository name = .error fault) :
    Walks g current passed 1 (.error fault)
  | cycle {current next : SymbolRef} {passed : List SymbolRef} (h : g.Follows current next)
    (hmem : next ∈ passed) :
    Walks g current passed 1 (.error (.aliasCycle ((next :: passed).reverse.map g.qualifiedName)))
  | hop {current next : SymbolRef} {passed : List SymbolRef} {lookups : Nat}
    {result : Except Fault NameTarget} (h : g.Follows current next) (hmem : next ∉ passed)
    (hrest : Walks g next (next :: passed) lookups result) : Walks g current passed (lookups + 1) result

/-- Some number of look-ups, that of the name itself among them, lead to a result. -/
inductive Searches (g : Graph) (id : RepositoryId) (name : String) : Nat → Except Fault NameTarget → Prop
  | missed {fault : Fault} (h : g.lookupSymbol id name = .error fault) : Searches g id name 1 (.error fault)
  | found {first : SymbolRef} {lookups : Nat} {result : Except Fault NameTarget}
    (h : g.lookupSymbol id name = .ok first) (hrest : g.Walks first [first] lookups result) :
    Searches g id name (lookups + 1) result

/-- No alias is looked up from twice. -/
theorem Walks.length_le (h : g.Walks current passed lookups result) (hpassed : g.Passed current passed) :
    lookups + passed.length ≤ g.aliasCount + 1 := by
  induction h with
  | symbol =>
      rw [Nat.zero_add]
      exact hpassed.length_le
  | native =>
      rw [Nat.zero_add]
      exact hpassed.length_le
  | missed h =>
      have := hpassed.length_le_of_isSome (Option.isSome_iff_exists.mpr ⟨_, h⟩)
      omega
  | cycle h =>
      have := hpassed.length_le_of_isSome h.isSome
      omega
  | hop h hmem _ ih =>
      have := ih (hpassed.hop h hmem)
      rw [List.length_cons] at this
      omega

/-- Every walk comes to an end. -/
theorem exists_walks {current : SymbolRef} {passed : List SymbolRef} (hpassed : g.Passed current passed) :
    ∃ lookups result, g.Walks current passed lookups result := by
  cases hfound : g.alias? current with
  | none => exact ⟨0, _, .symbol hfound⟩
  | some found =>
      cases hname : nextName? found.target.spec with
      | none => exact ⟨0, _, .native hfound hname⟩
      | some name =>
          cases hnext : g.lookupSymbol current.repository name with
          | error fault => exact ⟨1, _, .missed hfound hname hnext⟩
          | ok next =>
              have hfollows : g.Follows current next := ⟨found, name, hfound, hname, hnext⟩
              by_cases hmem : next ∈ passed
              · exact ⟨1, _, .cycle hfollows hmem⟩
              · have hlength := hpassed.length_le_of_isSome hfollows.isSome
                obtain ⟨lookups, result, hrest⟩ := exists_walks (hpassed.hop hfollows hmem)
                exact ⟨lookups + 1, result, .hop hfollows hmem hrest⟩
termination_by g.aliasCount + 1 - passed.length
decreasing_by
  rw [List.length_cons]
  omega

/-- With steps enough, the aliases are followed as the walk goes. -/
theorem Walks.followAliases_eq (h : g.Walks current passed lookups result) {steps : Nat} (hsteps : lookups < steps) :
    g.followAliases steps current passed = result := by
  obtain ⟨steps, rfl⟩ := Nat.exists_eq_succ_of_ne_zero (Nat.ne_of_gt (Nat.zero_lt_of_lt hsteps))
  induction h generalizing steps with
  | symbol h => rw [followAliases, h]
  | native h hname => simp only [followAliases, h, hname]
  | missed h hname hmissed => simp only [followAliases, h, hname, hmissed]
  | cycle h hmem =>
      obtain ⟨found, name, hfound, hname, hnext⟩ := h
      simp only [followAliases, hfound, hname, hnext, List.contains_iff_mem, hmem, if_true]
  | hop h hmem _ ih =>
      obtain ⟨found, name, hfound, hname, hnext⟩ := h
      simp only [followAliases, hfound, hname, hnext, List.contains_iff_mem, hmem, if_false]
      obtain ⟨steps, rfl⟩ := Nat.exists_eq_succ_of_ne_zero
        (Nat.ne_of_gt (Nat.zero_lt_of_lt (Nat.lt_of_succ_lt_succ hsteps)))
      exact ih steps (Nat.lt_of_succ_lt_succ hsteps)

/-- There is at most one look-up more than there are aliases. -/
theorem Searches.le (h : g.Searches id name lookups result) : lookups ≤ g.aliasCount + 1 := by
  cases h with
  | missed => omega
  | found _ hrest =>
      have hle := hrest.length_le (passed_start g _)
      rwa [List.length_singleton] at hle

/-- A name is resolved by the search for it. -/
theorem resolveName_eq_iff : g.resolveName id name = result ↔ ∃ lookups, g.Searches id name lookups result := by
  constructor
  · rintro rfl
    cases hfirst : g.lookupSymbol id name with
    | error fault =>
        rw [resolveName, hfirst]
        exact ⟨1, .missed hfirst⟩
    | ok first =>
        obtain ⟨lookups, result, hwalks⟩ := exists_walks (passed_start g first)
        have hsearches := Searches.found hfirst hwalks
        have hfollow := hwalks.followAliases_eq (Nat.lt_of_succ_le hsearches.le)
        rw [← hfollow] at hsearches
        rw [resolveName, hfirst]
        exact ⟨lookups + 1, hsearches⟩
  · rintro ⟨lookups, h⟩
    have hle := h.le
    cases h with
    | missed h =>
        rw [resolveName, h]
        rfl
    | found hfirst hwalks =>
        rw [resolveName, hfirst]
        exact hwalks.followAliases_eq (Nat.lt_of_succ_le hle)

/-! ### From the trail to the result -/

/-- How the trail of a name ends, and what the name comes to then. -/
inductive TrailEnds (g : Graph) (id : RepositoryId) (name : String) : Except Fault NameTarget → Prop
  | missing {fault : Fault} (h : g.lookupSymbol id name = .error fault) : TrailEnds g id name (.error fault)
  | symbol {current : SymbolRef} {earlier : List SymbolRef} (h : g.Trail id name (current :: earlier))
    (hsymbol : g.alias? current = none) : TrailEnds g id name (.ok (.symbol current))
  | native {current : SymbolRef} {earlier : List SymbolRef} {found : Alias}
    (h : g.Trail id name (current :: earlier)) (hfound : g.alias? current = some found)
    (hname : nextName? found.target.spec = none) : TrailEnds g id name (.ok (.native found.target.spec))
  | missed {current : SymbolRef} {earlier : List SymbolRef} {found : Alias} {next : String} {fault : Fault}
    (h : g.Trail id name (current :: earlier)) (hfound : g.alias? current = some found)
    (hname : nextName? found.target.spec = some next)
    (hmissed : g.lookupSymbol current.repository next = .error fault) : TrailEnds g id name (.error fault)
  | cycle {next : SymbolRef} {passed : List SymbolRef} (h : g.Trail id name (next :: passed))
    (hnodup : passed.Nodup) (hmem : next ∈ passed) :
    TrailEnds g id name (.error (.aliasCycle ((next :: passed).reverse.map g.qualifiedName)))

/-- A walk at the end of a trail ends it. -/
theorem Walks.trailEnds (hwalks : g.Walks current passed lookups result) (htrail : g.Trail id name passed)
    (hpassed : ∃ earlier, passed = current :: earlier) (hnodup : passed.Nodup) : g.TrailEnds id name result := by
  induction hwalks with
  | symbol h =>
      obtain ⟨earlier, rfl⟩ := hpassed
      exact .symbol htrail h
  | native h hname =>
      obtain ⟨earlier, rfl⟩ := hpassed
      exact .native htrail h hname
  | missed h hname hmissed =>
      obtain ⟨earlier, rfl⟩ := hpassed
      exact .missed htrail h hname hmissed
  | cycle h hmem =>
      obtain ⟨earlier, rfl⟩ := hpassed
      exact .cycle (htrail.hop h) hnodup hmem
  | hop h hmem _ ih =>
      obtain ⟨earlier, rfl⟩ := hpassed
      exact ih (htrail.hop h) ⟨_, rfl⟩ (List.nodup_cons.mpr ⟨hmem, hnodup⟩)

/-- A trail without repeats is walked along. -/
theorem Trail.searches (htrail : g.Trail id name (current :: earlier)) (hnodup : (current :: earlier).Nodup)
    (hwalks : g.Walks current (current :: earlier) lookups result) :
    ∃ lookups, g.Searches id name lookups result := by
  induction earlier generalizing current lookups with
  | nil =>
      cases htrail with
      | start h => exact ⟨_, .found h hwalks⟩
  | cons last earlier ih =>
      obtain ⟨hmem, hnodup⟩ := List.nodup_cons.mp hnodup
      exact ih htrail.tail hnodup (.hop htrail.follows hmem hwalks)

theorem not_follows_of_nextName? {found : Alias} (hfound : g.alias? current = some found)
    (hstops : ∀ name, nextName? found.target.spec = some name → ∀ next,
      g.lookupSymbol current.repository name ≠ .ok next) : ¬g.Follows current next := by
  rintro ⟨other, name, hother, hname, hnext⟩
  rw [hfound] at hother
  cases hother
  exact hstops name hname next hnext

/-- A name is resolved by the end of its trail. -/
theorem resolveName_eq_iff_trailEnds : g.resolveName id name = result ↔ g.TrailEnds id name result := by
  rw [resolveName_eq_iff]
  constructor
  · rintro ⟨lookups, h⟩
    cases h with
    | missed h => exact .missing h
    | found h hrest => exact hrest.trailEnds (.start h) ⟨[], rfl⟩ (by simp)
  · intro h
    have hend : ∀ {current earlier result lookups}, g.Trail id name (current :: earlier) →
        (∀ next, ¬g.Follows current next) → g.Walks current (current :: earlier) lookups result →
          ∃ lookups, g.Searches id name lookups result := by
      intro current earlier result lookups htrail hstops hwalks
      refine htrail.searches (htrail.nodup fun other hother hloop => ?_) hwalks
      obtain rfl : current = other := Option.some.inj hother
      obtain ⟨next, hnext, -⟩ := TransGen.head'_iff.mp hloop
      exact hstops next hnext
    cases h with
    | missing h => exact ⟨1, .missed h⟩
    | symbol htrail hsymbol =>
        refine hend htrail (fun next hnext => ?_) (.symbol hsymbol)
        have hsome := hnext.isSome
        rw [hsymbol] at hsome
        cases hsome
    | native htrail hfound hname =>
        refine hend htrail (fun next => not_follows_of_nextName? hfound fun name hname' => ?_)
          (.native hfound hname)
        rw [hname] at hname'
        cases hname'
    | missed htrail hfound hname hmissed =>
        refine hend htrail (fun next => not_follows_of_nextName? hfound fun name hname' next hnext => ?_)
          (.missed hfound hname hmissed)
        rw [hname] at hname'
        cases hname'
        rw [hmissed] at hnext
        cases hnext
    | cycle htrail hnodup hmem =>
        cases htrail with
        | start => cases hmem
        | hop htrail hnext => exact htrail.searches hnodup (.cycle hnext hmem)

/-! ### In every graph -/

/-- The trail of a name comes to an alias whose target has a native spelling that is known. -/
inductive EndsNative (g : Graph) (id : RepositoryId) (name : String) : TypeSpec → Spelling → Prop
  | intro {current : SymbolRef} {earlier : List SymbolRef} {found : Alias} {s : Spelling}
    (h : g.Trail id name (current :: earlier)) (hfound : g.alias? current = some found)
    (hs : found.target.spec.nativeSpelling = some s) (hknown : (classify s).category ≠ .unknown) :
    EndsNative g id name found.target.spec s

/-- The trail of a name comes back to one of its symbols, for the first time; with the names up to there. -/
inductive Cycles (g : Graph) (id : RepositoryId) (name : String) : List String → Prop
  | intro {next : SymbolRef} {passed : List SymbolRef} (h : g.Trail id name (next :: passed))
    (hnodup : passed.Nodup) (hmem : next ∈ passed) :
    Cycles g id name ((next :: passed).reverse.map g.qualifiedName)

/-- A name is not found, or one on its trail is not, from the repository that declares the alias. -/
inductive Misses (g : Graph) (id : RepositoryId) (name : String) (fault : Fault) : Prop
  | start (h : g.lookupSymbol id name = .error fault)
  | hop {current : SymbolRef} {earlier : List SymbolRef} {found : Alias} {next : String}
    (h : g.Trail id name (current :: earlier)) (hfound : g.alias? current = some found)
    (hname : nextName? found.target.spec = some next)
    (hmissed : g.lookupSymbol current.repository next = .error fault)

theorem Trail.exists_lookupSymbol (h : g.Trail id name (current :: earlier)) :
    ∃ a name, g.lookupSymbol a name = .ok current := by
  cases h with
  | start h => exact ⟨id, name, h⟩
  | @hop last _ _ _ hnext =>
      obtain ⟨_, next, -, -, hnext⟩ := hnext
      exact ⟨last.repository, next, hnext⟩

/-- Bound includes lead to the repositories of all symbols of the trail. -/
theorem Trail.path (h : g.Trail id name passed) :
    ∀ s ∈ passed, ReflTransGen (fun a b => b ∈ g.boundOf a) id s.repository := by
  induction h with
  | start h => simpa using path_of_lookupSymbol h
  | hop _ hnext ih =>
      obtain ⟨_, _, -, -, hnext⟩ := hnext
      exact List.forall_mem_cons.mpr ⟨(ih _ (List.mem_cons_self ..)).trans (path_of_lookupSymbol hnext), ih⟩

/-- A trail that comes back to one of its symbols does so for a first time. -/
theorem Trail.exists_cycles (h : g.Trail id name passed) (hrepeats : ¬passed.Nodup) :
    ∃ names, g.Cycles id name names := by
  induction h with
  | start => simp at hrepeats
  | @hop current next earlier h hnext ih =>
      by_cases hnodup : (current :: earlier).Nodup
      · refine ⟨_, .intro (h.hop hnext) hnodup ?_⟩
        by_contra hmem
        exact hrepeats (List.nodup_cons.mpr ⟨hmem, hnodup⟩)
      · exact ih hnodup

theorem Misses.exists_lookupSymbol {fault : Fault} (h : g.Misses id name fault) :
    ∃ a name, g.lookupSymbol a name = .error fault := by
  cases h with
  | start h => exact ⟨id, name, h⟩
  | hop _ _ _ hmissed => exact ⟨_, _, hmissed⟩

/-- A symbol that is found is an alias by its kind. -/
theorem alias?_eq_none_iff (h : g.lookupSymbol id name = .ok current) :
    g.alias? current = none ↔ current.kind ≠ .alias := by
  constructor
  · intro hnone hkind
    obtain ⟨r, symbolName, hr, hname⟩ := exists_symbolName?_of_lookupSymbol h
    rw [alias?, if_pos hkind, hr, Option.bind_some] at hnone
    rw [Namespace.symbolName?, hkind, Namespace.namesOf, List.getElem?_map, hnone] at hname
    cases hname
  · intro hkind
    rw [alias?, if_neg hkind]

/-- An alias that is not followed by a name has a target that is known. -/
theorem nextName?_eq_none_iff (hg : Obtained g) {found : Alias} (hfound : g.alias? current = some found) :
    nextName? found.target.spec = none ↔
      ∃ s, found.target.spec.nativeSpelling = some s ∧ (classify s).category ≠ .unknown := by
  obtain ⟨name, ctype, target, targetCtype, rfl⟩ := exists_described_of_alias? hg hfound
  simp [nextName?, TypeReference.scalar, Option.any_eq_true]

/-- A name comes to the symbol that ends its trail, if that is no alias. -/
theorem resolveName_eq_symbol : g.resolveName id name = .ok (.symbol current) ↔
    (∃ earlier, g.Trail id name (current :: earlier)) ∧ current.kind ≠ .alias := by
  rw [resolveName_eq_iff_trailEnds]
  constructor
  · intro h
    cases h with
    | symbol htrail hsymbol =>
        obtain ⟨a, name, hlookup⟩ := htrail.exists_lookupSymbol
        exact ⟨⟨_, htrail⟩, (alias?_eq_none_iff hlookup).mp hsymbol⟩
  · rintro ⟨⟨earlier, htrail⟩, hkind⟩
    obtain ⟨a, name, hlookup⟩ := htrail.exists_lookupSymbol
    exact .symbol htrail ((alias?_eq_none_iff hlookup).mpr hkind)

theorem resolveName_eq_native (hg : Obtained g) {target : TypeSpec} :
    g.resolveName id name = .ok (.native target) ↔ ∃ s, g.EndsNative id name target s := by
  rw [resolveName_eq_iff_trailEnds]
  constructor
  · intro h
    cases h with
    | native htrail hfound hname =>
        obtain ⟨s, hs, hknown⟩ := (nextName?_eq_none_iff hg hfound).mp hname
        exact ⟨s, .intro htrail hfound hs hknown⟩
  · rintro ⟨s, htrail, hfound, hs, hknown⟩
    exact .native htrail hfound ((nextName?_eq_none_iff hg hfound).mpr ⟨s, hs, hknown⟩)

theorem resolveName_eq_aliasCycle {names : List String} :
    g.resolveName id name = .error (.aliasCycle names) ↔ g.Cycles id name names := by
  rw [resolveName_eq_iff_trailEnds]
  constructor
  · intro h
    cases h with
    | missing h => exact absurd h (g.lookupSymbol_ne_aliasCycle _ _ _)
    | missed _ _ _ hmissed => exact absurd hmissed (g.lookupSymbol_ne_aliasCycle _ _ _)
    | cycle htrail hnodup hmem => exact .intro htrail hnodup hmem
  · rintro ⟨htrail, hnodup, hmem⟩
    exact .cycle htrail hnodup hmem

/-- Any other fault is that of a look-up. -/
theorem resolveName_eq_error {fault : Fault} :
    g.resolveName id name = .error fault ↔
      g.Misses id name fault ∨ ∃ names, fault = .aliasCycle names ∧ g.Cycles id name names := by
  rw [resolveName_eq_iff_trailEnds]
  constructor
  · intro h
    cases h with
    | missing h => exact .inl (.start h)
    | missed htrail hfound hname hmissed => exact .inl (.hop htrail hfound hname hmissed)
    | cycle htrail hnodup hmem => exact .inr ⟨_, rfl, .intro htrail hnodup hmem⟩
  · rintro ((h | ⟨htrail, hfound, hname, hmissed⟩) | ⟨_, rfl, htrail, hnodup, hmem⟩)
    · exact .missing h
    · exact .missed htrail hfound hname hmissed
    · exact .cycle htrail hnodup hmem

/-- What a name comes to, told by its trail. -/
structure FollowsTrail (g : Graph) (id : RepositoryId) (name : String) : Prop where
  bounded : ∃ lookups ≤ g.aliasCount + 1, g.Searches id name lookups (g.resolveName id name)
  symbol : ∀ current, g.resolveName id name = .ok (.symbol current) ↔
    (∃ earlier, g.Trail id name (current :: earlier)) ∧ current.kind ≠ .alias
  native : ∀ target, g.resolveName id name = .ok (.native target) ↔ ∃ s, g.EndsNative id name target s
  spelled : ∀ target, g.resolveName id name = .ok (.native target) →
    ∃ s, target.nativeSpelling = some s ∧ (classify s).category ≠ .unknown
  cyclic : (∃ names, g.resolveName id name = .error (.aliasCycle names)) ↔
    ∃ trail, g.Trail id name trail ∧ ¬trail.Nodup
  cycle : ∀ names, g.resolveName id name = .error (.aliasCycle names) ↔ g.Cycles id name names
  missed : ∀ fault, (g.resolveName id name = .error fault ∧ ∀ names, fault ≠ .aliasCycle names) ↔
    g.Misses id name fault

end Graph

/-- Names are resolved along their trails, by at most one look-up more than there are aliases. A name comes to
the symbol that ends its trail and is no alias; to the target of an alias on it whose native spelling is
known; to a cycle if the trail comes back to a symbol, with the names up to the first one that it comes back
to; and to the fault of a look-up if a name on the trail is not found. -/
theorem resolveName_follows_trail {g : Graph} (hg : Obtained g) (id : RepositoryId) (name : String) :
    g.FollowsTrail id name where
  bounded := by
    obtain ⟨lookups, h⟩ := Graph.resolveName_eq_iff.mp (Eq.refl (g.resolveName id name))
    exact ⟨lookups, h.le, h⟩
  symbol _ := Graph.resolveName_eq_symbol
  native _ := Graph.resolveName_eq_native hg
  spelled target h := by
    obtain ⟨s, -, -, hs, hknown⟩ := (Graph.resolveName_eq_native hg).mp h
    exact ⟨s, hs, hknown⟩
  cyclic := by
    constructor
    · rintro ⟨names, h⟩
      obtain ⟨htrail, -, hmem⟩ := Graph.resolveName_eq_aliasCycle.mp h
      exact ⟨_, htrail, fun hnodup => (List.nodup_cons.mp hnodup).1 hmem⟩
    · rintro ⟨trail, htrail, hrepeats⟩
      obtain ⟨names, hcycles⟩ := htrail.exists_cycles hrepeats
      exact ⟨names, Graph.resolveName_eq_aliasCycle.mpr hcycles⟩
  cycle _ := Graph.resolveName_eq_aliasCycle
  missed fault := by
    rw [Graph.resolveName_eq_error]
    constructor
    · rintro ⟨h | ⟨names, rfl, -⟩, hfault⟩
      · exact h
      · exact absurd rfl (hfault names)
    · intro h
      refine ⟨.inl h, ?_⟩
      rintro names rfl
      obtain ⟨a, name, hmissed⟩ := h.exists_lookupSymbol
      exact g.lookupSymbol_ne_aliasCycle a name names hmissed

namespace Sample

/-- Two aliases of each other, and one that leads to them. -/
def looped : Graph :=
  ({} : Graph).after
    [.register (description "Loop" [] (
      [("Left", "LLeft", "Right", "LRight"), ("Right", "LRight", "Left", "LLeft"),
        ("Entry", "LEntry", "Left", "LLeft")].map described)), .link]

theorem looped_eq : looped = {
    repositories := [{
      content := {
        key := ⟨"Loop", "2.0"⟩
        aliases := [built ("Left", "LLeft", "Right", "LRight"), built ("Right", "LRight", "Left", "LLeft"),
          built ("Entry", "LEntry", "Left", "LLeft")] }
      includes := [] }]
    positions := [(⟨"Loop", "2.0"⟩, ⟨0⟩)]
    buildOrder := [⟨0⟩] } := by
  cbv

theorem cycles_looped :
    looped.Cycles ⟨0⟩ "Entry" ["Loop.Entry", "Loop.Left", "Loop.Right", "Loop.Left"] := by
  have htrail : looped.Trail ⟨0⟩ "Entry"
      [⟨⟨0⟩, .alias, 0⟩, ⟨⟨0⟩, .alias, 1⟩, ⟨⟨0⟩, .alias, 0⟩, ⟨⟨0⟩, .alias, 2⟩] := by
    rw [looped_eq]
    exact (((Graph.Trail.start (by decide +kernel)).hop
      ⟨built ("Entry", "LEntry", "Left", "LLeft"), "Left", rfl, by decide +kernel, by decide +kernel⟩).hop
      ⟨built ("Left", "LLeft", "Right", "LRight"), "Right", rfl, by decide +kernel, by decide +kernel⟩).hop
      ⟨built ("Right", "LRight", "Left", "LLeft"), "Left", rfl, by decide +kernel, by decide +kernel⟩
  have hnames : [⟨⟨0⟩, .alias, 0⟩, ⟨⟨0⟩, .alias, 1⟩, ⟨⟨0⟩, .alias, 0⟩, ⟨⟨0⟩, .alias, 2⟩].reverse.map
      looped.qualifiedName = ["Loop.Entry", "Loop.Left", "Loop.Right", "Loop.Left"] := by
    rw [looped_eq]
    decide +kernel
  have hcycles := Graph.Cycles.intro htrail (by decide) (by decide)
  rwa [hnames] at hcycles

end Sample

open Sample in
theorem resolveName_follows_trail_looped : Obtained looped ∧ looped.FollowsTrail ⟨0⟩ "Entry" ∧
    looped.resolveName ⟨0⟩ "Entry" =
      .error (.aliasCycle ["Loop.Entry", "Loop.Left", "Loop.Right", "Loop.Left"]) := by
  have hlooped : Obtained looped := Obtained.empty.after _
  have hfollows := resolveName_follows_trail hlooped ⟨0⟩ "Entry"
  exact ⟨hlooped, hfollows, (hfollows.cycle _).mpr cycles_looped⟩

end Interop
