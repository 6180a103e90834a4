import Interop.Proofs.Folding
import Interop.Proofs.Growth

/-! Searching for a name. A linked repository finds the symbol of the nearest repository that offers one: the
first in the breadth-first order of the includes. As long as its includes are unbound, a repository finds its
own symbols, and a name that it does not have is a fault of the first include that may have it. Main
statement: `lookupSymbol_nearest`. -/

namespace Interop

/-- A name that may be in the namespace of an include: it is unqualified, or qualified by that namespace. -/
def Include.mayHold (dependency : Include) (name : String) : Bool :=
  (splitQualified name).1.all (· == dependency.key.name)

namespace Graph

open Relation

variable {g : Graph} {id a : RepositoryId} {name : String} {symbol : SymbolRef}

/-- A repository offers a symbol for a name that is looked up from another one: it declares the symbol under
the local name and is a namespace that the name is qualified by, if it is qualified. For a name qualified by
the own namespace of the one that looks it up, only this one counts. -/
structure Offers (g : Graph) (id : RepositoryId) (name : String) (a : RepositoryId) (symbol : SymbolRef) :
    Prop where
  declared : g.findIn a (splitQualified name).2 = some symbol
  qualified : ∀ qualifier ∈ (splitQualified name).1, g.namespaceName a = qualifier
  own : (splitQualified name).1 = some (g.namespaceName id) → a = id

/-- The symbol that a repository offers. -/
def offer? (g : Graph) (id : RepositoryId) (name : String) (a : RepositoryId) : Option SymbolRef :=
  if (∀ qualifier ∈ (splitQualified name).1, g.namespaceName a = qualifier) ∧
      ((splitQualified name).1 = some (g.namespaceName id) → a = id)
  then g.findIn a (splitQualified name).2 else none

theorem offer?_eq_some : g.offer? id name a = some symbol ↔ g.Offers id name a symbol := by
  rw [offer?, Option.ite_none_right_eq_some]
  constructor
  · rintro ⟨⟨hqualified, hown⟩, hdeclared⟩
    exact ⟨hdeclared, hqualified, hown⟩
  · rintro ⟨hdeclared, hqualified, hown⟩
    exact ⟨⟨hqualified, hown⟩, hdeclared⟩

theorem offer?_eq_none : g.offer? id name a = none ↔ ∀ symbol, ¬g.Offers id name a symbol := by
  simp only [Option.eq_none_iff_forall_ne_some, Ne, offer?_eq_some]

/-! ### The search -/

/-- A name that is not qualified by the own namespace is looked up through the includes, unless the repository
offers it itself. -/
theorem lookupSymbol_eq_offer? (hown : (splitQualified name).1 ≠ some (g.namespaceName id)) :
    g.lookupSymbol id name = (g.offer? id name id).elim
      ((((g.reachable id).flatMap g.includesOf).findSome?
        (g.lookupVia (splitQualified name).1 (splitQualified name).2)).getD
          (.error (.unresolvedSymbol name (g.canonicalName id)))) .ok := by
  have hoffer : g.offer? id name id =
      if (splitQualified name).1.isNone then g.findIn id (splitQualified name).2 else none := by
    rw [offer?]
    cases hqualifier : (splitQualified name).1 with
    | none => simp
    | some qualifier =>
        have hne : g.namespaceName id ≠ qualifier := fun heq => hown (by rw [hqualifier, heq])
        simp [hne]
  rw [hoffer, lookupSymbol_of_ne hown]

/-- What is found is declared, under its position, in its repository. -/
theorem exists_symbolName?_of_lookupSymbol (h : g.lookupSymbol id name = .ok symbol) :
    ∃ r symbolName, g.repository? symbol.repository = some r ∧
      r.content.symbolName? symbol.kind symbol.index = some symbolName := by
  have hsearched := searched_lookupSymbol g id name
  rw [h] at hsearched
  cases hsearched with
  | found _ hfind =>
      obtain ⟨r, hr, hfind⟩ := Option.bind_eq_some_iff.mp hfind
      obtain ⟨⟨kind, index⟩, hlookup, hsymbol⟩ := Option.bind_eq_some_iff.mp hfind
      cases hsymbol
      obtain ⟨other, -, hposition⟩ := List.exists_of_findSome?_eq_some hlookup
      obtain ⟨i, hi, heq⟩ := Option.map_eq_some_iff.mp hposition
      cases heq
      obtain ⟨symbolName, hname, -⟩ := Namespace.getElem?_of_position? hi
      exact ⟨r, symbolName, hr, by rw [Namespace.symbolName?, hname, Option.join_some]⟩

/-- An include that is bound contributes what the repository behind it offers. -/
theorem lookupVia_of_bound (hown : (splitQualified name).1 ≠ some (g.namespaceName id)) {dependency : Include}
    (hbound : dependency.bound = some a) (hname : g.namespaceName a = dependency.key.name) :
    g.lookupVia (splitQualified name).1 (splitQualified name).2 dependency = (g.offer? id name a).map .ok := by
  rw [lookupVia, hbound, offer?, hname]
  cases hqualifier : (splitQualified name).1 with
  | none => simp
  | some qualifier =>
      have hne : qualifier ≠ g.namespaceName id := fun heq => hown (by rw [hqualifier, heq])
      by_cases hsame : qualifier = dependency.key.name
      · simp [← hsame, hne]
      · have hother : dependency.key.name ≠ qualifier := fun heq => hsame heq.symm
        simp [hsame, hother]

theorem findSome?_lookupVia_of_bound (hown : (splitQualified name).1 ≠ some (g.namespaceName id)) :
    ∀ {dependencies : List Include}, (∀ dependency ∈ dependencies, ∃ a, dependency.bound = some a ∧
        g.namespaceName a = dependency.key.name) →
      dependencies.findSome? (g.lookupVia (splitQualified name).1 (splitQualified name).2) =
        ((dependencies.filterMap (·.bound)).findSome? (g.offer? id name)).map .ok
  | [], _ => rfl
  | dependency :: dependencies, hbound => by
    obtain ⟨⟨a, ha, hname⟩, hrest⟩ := List.forall_mem_cons.mp hbound
    rw [List.findSome?_cons, List.filterMap_cons_some ha, List.findSome?_cons, lookupVia_of_bound hown ha hname,
      findSome?_lookupVia_of_bound hown hrest]
    cases g.offer? id name a <;> rfl

/-- Where all includes on the way are bound, the first repository in breadth-first order that offers a symbol
decides. -/
theorem lookupSymbol_of_bound (horder : Reach.BreadthFirst g.boundOf id (g.reachable id))
    (hbound : ∀ a ∈ g.reachable id, ∀ dependency ∈ g.includesOf a, ∃ b, dependency.bound = some b ∧
      g.namespaceName b = dependency.key.name) :
    g.lookupSymbol id name = ((g.reachable id).findSome? (g.offer? id name)).elim
      (.error (.unresolvedSymbol name (g.canonicalName id))) .ok := by
  have hboundOf : ∀ ids : List RepositoryId,
      ids.flatMap g.boundOf = (ids.flatMap g.includesOf).filterMap (·.bound) := by
    intro ids
    rw [List.filterMap_flatMap]
    rfl
  rw [horder.findSome?_eq]
  by_cases hown : (splitQualified name).1 = some (g.namespaceName id)
  · -- no other repository offers anything
    have hnone : ∀ a, g.offer? id name id = none → g.offer? id name a = none := by
      intro a hid
      rw [offer?_eq_none] at hid ⊢
      intro symbol hoffers
      exact hid symbol (hoffers.own hown ▸ hoffers)
    have hfind : g.offer? id name id = g.findIn id (splitQualified name).2 := by
      rw [offer?, hown]
      simp
    rw [lookupSymbol_of_own hown, ← hfind]
    cases hid : g.offer? id name id with
    | some symbol => rfl
    | none =>
        have hrest : ((g.reachable id).flatMap g.boundOf).findSome? (g.offer? id name) = none :=
          List.findSome?_eq_none_iff.mpr fun a _ => hnone a hid
        rw [hrest]
        rfl
  · have hsearch : ((g.reachable id).flatMap g.includesOf).findSome?
        (g.lookupVia (splitQualified name).1 (splitQualified name).2) =
          (((g.reachable id).flatMap g.boundOf).findSome? (g.offer? id name)).map .ok := by
      rw [hboundOf]
      refine findSome?_lookupVia_of_bound hown fun dependency hdependency => ?_
      obtain ⟨a, ha, hdependency⟩ := List.mem_flatMap.mp hdependency
      exact hbound a ha dependency hdependency
    rw [lookupSymbol_eq_offer? hown, hsearch]
    cases g.offer? id name id with
    | some symbol => rfl
    | none => cases ((g.reachable id).flatMap g.boundOf).findSome? (g.offer? id name) <;> rfl

/-- The first unbound include that may hold the name is missed. -/
theorem findSome?_lookupVia_of_unbound (name : String) :
    ∀ {dependencies : List Include}, (∀ dependency ∈ dependencies, dependency.bound = none) →
      dependencies.findSome? (g.lookupVia (splitQualified name).1 (splitQualified name).2) =
        (dependencies.find? (·.mayHold name)).map fun dependency => .error dependency.unbound
  | [], _ => rfl
  | dependency :: dependencies, hunbound => by
    obtain ⟨hnone, hrest⟩ := List.forall_mem_cons.mp hunbound
    have hvia : g.lookupVia (splitQualified name).1 (splitQualified name).2 dependency =
        if dependency.mayHold name then some (.error dependency.unbound) else none := by
      rw [lookupVia, hnone, Include.mayHold]
      cases (splitQualified name).1 with
      | none => rfl
      | some qualifier =>
          by_cases heq : qualifier = dependency.key.name
          · simp [heq]
          · simp [heq]
    rw [List.findSome?_cons, List.find?_cons, hvia, findSome?_lookupVia_of_unbound name hrest]
    cases dependency.mayHold name <;> rfl

/-- A repository none of whose includes is bound finds its own symbols only. -/
theorem lookupSymbol_of_unbound (hown : (splitQualified name).1 ≠ some (g.namespaceName id))
    (hunbound : ∀ dependency ∈ g.includesOf id, dependency.bound = none) :
    g.lookupSymbol id name = (g.offer? id name id).elim
      (((g.includesOf id).find? (·.mayHold name)).elim
        (.error (.unresolvedSymbol name (g.canonicalName id))) fun dependency => .error dependency.unbound) .ok := by
  rw [lookupSymbol_eq_offer? hown, reachable_of_unbound hunbound, List.flatMap_singleton,
    findSome?_lookupVia_of_unbound name hunbound]
  cases (g.includesOf id).find? (·.mayHold name) <;> rfl

/-- A repository that is linked finds the symbol of the first repository that offers one. -/
structure FindsNearest (g : Graph) (id : RepositoryId) (r : Repository) (name : String) : Prop where
  breadthFirst : Reach.BreadthFirst g.boundOf id (g.reachable id)
  found : ∀ symbol, g.lookupSymbol id name = .ok symbol ↔
    ∃ before after, g.reachable id = before ++ symbol.repository :: after ∧
      g.Offers id name symbol.repository symbol ∧ ∀ a ∈ before, ∀ other, ¬g.Offers id name a other
  /-- Not more edges lead there than to any repository that offers one. -/
  nearest : ∀ symbol, g.lookupSymbol id name = .ok symbol → ∀ n a other, Reach.Away g.boundOf id n a →
    g.Offers id name a other → ∃ m ≤ n, Reach.Away g.boundOf id m symbol.repository
  own : (splitQualified name).1 = some r.key.name → ∀ symbol, g.lookupSymbol id name = .ok symbol →
    symbol.repository = id
  otherwise : (∀ a ∈ g.reachable id, ∀ symbol, ¬g.Offers id name a symbol) →
    g.lookupSymbol id name = .error (.unresolvedSymbol name r.key.canonicalName)

/-- A repository that is not linked finds its own symbols. -/
structure FindsOwn (g : Graph) (id : RepositoryId) (r : Repository) (name : String) : Prop where
  own : (∀ qualifier ∈ (splitQualified name).1, qualifier = r.key.name) →
    ∀ symbol, g.findIn id (splitQualified name).2 = some symbol → g.lookupSymbol id name = .ok symbol
  missing : (splitQualified name).1 = some r.key.name → g.findIn id (splitQualified name).2 = none →
    g.lookupSymbol id name = .error (.unresolvedSymbol name r.key.canonicalName)
  /-- For any other name, the first include that may hold it is missed. -/
  missed : (splitQualified name).1 ≠ some r.key.name →
    ((splitQualified name).1 = none → g.findIn id (splitQualified name).2 = none) →
      ∀ dependency, r.includes.find? (·.mayHold name) = some dependency →
        g.lookupSymbol id name =
          .error (.unresolvedDependency dependency.key.canonicalName r.key.canonicalName)
  /-- Without such an include, which takes a qualifier, the name is not found. -/
  nowhere : ∀ qualifier, (splitQualified name).1 = some qualifier → qualifier ≠ r.key.name →
    (∀ dependency ∈ r.includes, dependency.key.name ≠ qualifier) →
      g.lookupSymbol id name = .error (.unresolvedSymbol name r.key.canonicalName)

theorem findsNearest_of_bound {r : Repository} (hr : g.repository? id = some r)
    (horder : Reach.BreadthFirst g.boundOf id (g.reachable id))
    (hbound : ∀ a ∈ g.reachable id, ∀ dependency ∈ g.includesOf a, ∃ b, dependency.bound = some b ∧
      g.namespaceName b = dependency.key.name) (name : String) : g.FindsNearest id r name := by
  have hlookup : g.lookupSymbol id name = ((g.reachable id).findSome? (g.offer? id name)).elim
      (.error (.unresolvedSymbol name (g.canonicalName id))) .ok := lookupSymbol_of_bound horder hbound
  have hfound : ∀ symbol, g.lookupSymbol id name = .ok symbol ↔
      ∃ before after, g.reachable id = before ++ symbol.repository :: after ∧
        g.Offers id name symbol.repository symbol ∧ ∀ a ∈ before, ∀ other, ¬g.Offers id name a other := by
    intro symbol
    have hok : g.lookupSymbol id name = .ok symbol ↔
        (g.reachable id).findSome? (g.offer? id name) = some symbol := by
      rw [hlookup]
      cases (g.reachable id).findSome? (g.offer? id name) <;> simp
    rw [hok, List.findSome?_eq_some_iff]
    constructor
    · rintro ⟨before, a, after, heq, hoffer, hnone⟩
      rw [offer?_eq_some] at hoffer
      obtain rfl := repository_of_findIn hoffer.declared
      exact ⟨before, after, heq, hoffer, fun a ha => offer?_eq_none.mp (hnone a ha)⟩
    · rintro ⟨before, after, heq, hoffer, hnone⟩
      exact ⟨before, _, after, heq, offer?_eq_some.mpr hoffer, fun a ha => offer?_eq_none.mpr (hnone a ha)⟩
  refine ⟨horder, hfound, ?_, ?_, ?_⟩
  · intro symbol hsymbol n a other haway hoffers
    obtain ⟨before, after, heq, -, hnone⟩ := (hfound symbol).mp hsymbol
    have ha : a ∈ g.reachable id := (horder.mem_iff a).mpr haway.path
    rw [heq] at ha
    rcases List.mem_append.mp ha with ha | ha
    · exact absurd hoffers (hnone a ha other)
    · rcases List.mem_cons.mp ha with rfl | ha
      · exact ⟨n, Nat.le_refl n, haway⟩
      · obtain ⟨between, rest, rfl⟩ := List.append_of_mem ha
        have hsplit : g.reachable id = (before ++ symbol.repository :: between) ++ a :: rest := by
          rw [heq, List.append_assoc, List.cons_append]
        exact horder.exists_away_le haway hsplit symbol.repository (by simp)
  · intro hown symbol hsymbol
    obtain ⟨_, _, -, hoffers, -⟩ := (hfound symbol).mp hsymbol
    exact hoffers.own (by rw [hown, namespaceName_eq hr])
  · intro hnone
    have hsearch : (g.reachable id).findSome? (g.offer? id name) = none :=
      List.findSome?_eq_none_iff.mpr fun a ha => offer?_eq_none.mpr (hnone a ha)
    rw [hlookup, hsearch, canonicalName_eq hr]
    rfl

theorem findsOwn_of_unbound {r : Repository} (hr : g.repository? id = some r)
    (hunbound : ∀ dependency ∈ r.includes, dependency.bound = none)
    (howner : ∀ dependency ∈ r.includes, dependency.owner = r.key.canonicalName) (name : String) :
    g.FindsOwn id r name := by
  have hlookup : (splitQualified name).1 ≠ some r.key.name → g.lookupSymbol id name =
      (g.offer? id name id).elim ((r.includes.find? (·.mayHold name)).elim
        (.error (.unresolvedSymbol name r.key.canonicalName)) fun dependency => .error dependency.unbound) .ok := by
    intro hne
    rw [← includesOf_eq hr] at hunbound ⊢
    rw [lookupSymbol_of_unbound (by rwa [namespaceName_eq hr]) hunbound, canonicalName_eq hr]
  have hoffer : (splitQualified name).1 ≠ some r.key.name →
      ((splitQualified name).1 = none → g.findIn id (splitQualified name).2 = none) →
        g.offer? id name id = none := by
    intro hne hnone
    refine offer?_eq_none.mpr fun symbol hoffers => ?_
    cases hqualifier : (splitQualified name).1 with
    | none =>
        have hdeclared := hoffers.declared
        rw [hnone hqualifier] at hdeclared
        cases hdeclared
    | some qualifier =>
        have hqualified := hoffers.qualified qualifier hqualifier
        rw [namespaceName_eq hr] at hqualified
        exact hne (by rw [hqualifier, hqualified])
  refine ⟨?_, ?_, ?_, ?_⟩
  · intro hqualified symbol hsymbol
    by_cases hown : (splitQualified name).1 = some r.key.name
    · rw [lookupSymbol_of_own (by rwa [namespaceName_eq hr]), hsymbol, Option.elim_some]
    · have hoffers : g.Offers id name id symbol := by
        refine ⟨hsymbol, fun qualifier hqualifier => ?_, fun _ => rfl⟩
        rw [namespaceName_eq hr, hqualified qualifier hqualifier]
      rw [hlookup hown, offer?_eq_some.mpr hoffers, Option.elim_some]
  · intro hown hnone
    rw [lookupSymbol_of_own (by rwa [namespaceName_eq hr]), hnone, Option.elim_none, canonicalName_eq hr]
  · intro hne hnone dependency hfind
    rw [hlookup hne, hoffer hne hnone, hfind, Option.elim_none, Option.elim_some, Include.unbound,
      howner dependency (List.mem_of_find?_eq_some hfind)]
  · intro qualifier hqualifier hne hother
    have hown : (splitQualified name).1 ≠ some r.key.name := by
      rw [hqualifier]
      exact fun heq => hne (Option.some.inj heq)
    have hfind : r.includes.find? (·.mayHold name) = none := by
      refine List.find?_eq_none.mpr fun dependency hdependency => ?_
      simpa [Include.mayHold, hqualifier] using (hother dependency hdependency).symm
    rw [hlookup hown, hoffer hown (fun hnone => by rw [hnone] at hqualifier; cases hqualifier), hfind]
    rfl

end Graph

/-! ### In every graph -/

namespace History.Consistent

variable {h : History} (hh : h.Consistent) {id : RepositoryId} {r : Repository}
  (hr : h.graph.repository? id = some r)

include hh hr

/-- All that a linked repository sees is linked: each include is bound to a namespace of its name. -/
theorem exists_bound_of_isLinked (hlinked : r.isLinked) : ∀ a ∈ h.graph.reachable id,
    ∀ dependency ∈ h.graph.includesOf a,
      ∃ b, dependency.bound = some b ∧ h.graph.namespaceName b = dependency.key.name := by
  intro a ha dependency hdependency
  have hsome : dependency.bound.isSome := by
    cases Graph.path_of_mem_reachable ha with
    | refl =>
        rw [Graph.includesOf_eq hr] at hdependency
        exact List.all_eq_true.mp hlinked dependency hdependency
    | tail _ hmem =>
        have horder := hh.mem_buildOrder_of_mem_boundOf hmem
        exact hh.bound a (hh.perm.mem_iff.mp horder) dependency hdependency
  obtain ⟨b, hb⟩ := Option.isSome_iff_exists.mp hsome
  obtain ⟨included, hincluded, hkey⟩ :=
    (hh.indexed _ _).mp (hh.bindings.find? a dependency hdependency b hb)
  exact ⟨b, hb, by rw [Graph.namespaceName_eq hincluded, hkey]⟩

theorem unbound_of_not_isLinked (hlinked : r.isLinked = false) :
    ∀ dependency ∈ r.includes, dependency.bound = none := by
  rcases hh.wellFormed.all_or_none id r hr with h | h
  · rw [h] at hlinked
    cases hlinked
  · exact h

end History.Consistent

/-- Every include names the repository that it stands in. -/
theorem Obtained.owner_eq {g : Graph} (hg : Obtained g) {id : RepositoryId} {r : Repository}
    (hr : g.repository? id = some r) : ∀ dependency ∈ r.includes, dependency.owner = r.key.canonicalName := by
  intro dependency hdependency
  obtain ⟨d, hd⟩ := hg.sourced id r hr
  exact Repository.owner_of_ofDescription hd dependency.unlinked (List.mem_map_of_mem hdependency)

namespace Sample

/-- A namespace whose include is not there. -/
def alone : Graph := ({} : Graph).after [.register gobject]

theorem alone_eq : alone = {
    repositories := [gobjectRepository none]
    positions := [(⟨"GObject", "2.0"⟩, ⟨0⟩)] } := by
  cbv

end Sample

end Interop
