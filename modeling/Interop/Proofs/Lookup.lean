import Interop.Graph.Lookup
import Interop.Proofs.Linking
import Interop.Proofs.Reach

/-! Looking up a name. The search comes to a symbol of a repository that bound includes lead to, to no symbol,
or to an include that is not bound. Main statement: `searched_lookupSymbol`. -/

namespace Interop.Graph

open Relation

variable {g : Graph} {id a : RepositoryId} {name : String} {symbol : SymbolRef}

theorem canonicalName_eq {r : Repository} (h : g.repository? id = some r) :
    g.canonicalName id = r.key.canonicalName := by
  rw [canonicalName, h, Option.elim_some]

theorem namespaceName_eq {r : Repository} (h : g.repository? id = some r) :
    g.namespaceName id = r.key.name := by
  rw [namespaceName, h, Option.elim_some]

theorem repository_of_findIn {localName : String} (h : g.findIn a localName = some symbol) : symbol.repository = a := by
  obtain ⟨r, -, h⟩ := Option.bind_eq_some_iff.mp h
  obtain ⟨found, -, h⟩ := Option.bind_eq_some_iff.mp h
  cases h
  rfl

/-- A name qualified by the own namespace is looked up there only. -/
theorem lookupSymbol_of_own (hown : (splitQualified name).1 = some (g.namespaceName id)) :
    g.lookupSymbol id name = (g.findIn id (splitQualified name).2).elim
      (.error (.unresolvedSymbol name (g.canonicalName id))) .ok := by
  simp only [lookupSymbol, hown, beq_self_eq_true, Bool.or_true, if_true]
  cases g.findIn id (splitQualified name).2 <;> rfl

/-- Any other name is looked up among the own symbols if it is unqualified, and then through the includes. -/
theorem lookupSymbol_of_ne (hown : (splitQualified name).1 ≠ some (g.namespaceName id)) :
    g.lookupSymbol id name =
      (if (splitQualified name).1.isNone then g.findIn id (splitQualified name).2 else none).elim
        ((((g.reachable id).flatMap g.includesOf).findSome?
          (g.lookupVia (splitQualified name).1 (splitQualified name).2)).getD
            (.error (.unresolvedSymbol name (g.canonicalName id)))) .ok := by
  simp only [lookupSymbol, beq_false_of_ne hown, Bool.or_false]
  cases (if (splitQualified name).1.isNone then g.findIn id (splitQualified name).2 else none) <;> rfl

/-- What a search can come to. -/
inductive Searched (g : Graph) (id : RepositoryId) (name : String) : Except Fault SymbolRef → Prop
  | found {a : RepositoryId} {symbol : SymbolRef} (ha : ReflTransGen (fun a b => b ∈ g.boundOf a) id a)
    (h : g.findIn a (splitQualified name).2 = some symbol) : Searched g id name (.ok symbol)
  | unresolved : Searched g id name (.error (.unresolvedSymbol name (g.canonicalName id)))
  | unbound {a : RepositoryId} {dependency : Include} (ha : a ∈ g.reachable id)
    (hdependency : dependency ∈ g.includesOf a) (hbound : dependency.bound = none) :
    Searched g id name (.error dependency.unbound)

/-- Bound includes lead to whatever is seen. -/
theorem path_of_mem_reachable (ha : a ∈ g.reachable id) : ReflTransGen (fun a b => b ∈ g.boundOf a) id a := by
  obtain ⟨start, hstart, hpath⟩ := Reach.exists_path_of_mem_explore g.size (fun _ h => h) ha
  rwa [List.mem_singleton.mp hstart] at hpath

theorem searched_lookupSymbol (g : Graph) (id : RepositoryId) (name : String) :
    g.Searched id name (g.lookupSymbol id name) := by
  by_cases hown : (splitQualified name).1 = some (g.namespaceName id)
  · rw [lookupSymbol_of_own hown]
    cases hfind : g.findIn id (splitQualified name).2 with
    | none => exact .unresolved
    | some symbol => exact .found .refl hfind
  · rw [lookupSymbol_of_ne hown]
    cases hfound : (if (splitQualified name).1.isNone then g.findIn id (splitQualified name).2 else none) with
    | some symbol => exact .found .refl (Option.ite_none_right_eq_some.mp hfound).2
    | none =>
        cases hsearch : ((g.reachable id).flatMap g.includesOf).findSome?
            (g.lookupVia (splitQualified name).1 (splitQualified name).2) with
        | none => exact .unresolved
        | some result =>
            obtain ⟨dependency, hmem, hvia⟩ := List.exists_of_findSome?_eq_some hsearch
            obtain ⟨a, ha, hdependency⟩ := List.mem_flatMap.mp hmem
            rw [lookupVia] at hvia
            split at hvia
            · cases hvia
            · split at hvia
              · next hbound =>
                  cases hvia
                  exact .unbound ha hdependency hbound
              · next b hbound =>
                  obtain ⟨symbol, hfind, rfl⟩ := Option.map_eq_some_iff.mp hvia
                  have hb : b ∈ g.boundOf a := mem_boundOf.mpr ⟨dependency, hdependency, hbound⟩
                  exact .found ((path_of_mem_reachable ha).tail hb) hfind

/-- Bound includes lead to the repository of what is found. -/
theorem path_of_lookupSymbol (h : g.lookupSymbol id name = .ok symbol) :
    ReflTransGen (fun a b => b ∈ g.boundOf a) id symbol.repository := by
  have hsearched := searched_lookupSymbol g id name
  rw [h] at hsearched
  cases hsearched with
  | found ha hfind => rwa [repository_of_findIn hfind]

/-- A search follows no alias, so that it meets no cycle of them. -/
theorem lookupSymbol_ne_aliasCycle (g : Graph) (id : RepositoryId) (name : String) (names : List String) :
    g.lookupSymbol id name ≠ .error (.aliasCycle names) := by
  intro h
  have hsearched := searched_lookupSymbol g id name
  rw [h] at hsearched
  cases hsearched

end Interop.Graph
