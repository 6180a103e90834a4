import Interop.Proofs.Registering
import Mathlib.Data.List.Sort

/-! Graphs by what was done to them. Whatever is registered and linked in whatever order, the includes of
the repositories linked last lead to the repositories with their keys, those of the others nowhere, and
the order of building has every repository after those that it includes. Main statements:
`run_consistent` and `run_invariant`. -/

namespace Interop

open Relation

/-- A call that is to change a graph. -/
inductive GraphCall
  | register (d : Description)
  | link

/-- Makes a call. A description that gives no repository leaves nothing to register. -/
def GraphCall.apply (g : Graph) : GraphCall → Except Fault Unit × Graph
  | .register d =>
    match (Repository.ofDescription d).outcome with
    | .error fault => (.error fault, g)
    | .ok r => ((g.register r).1.map fun _ => (), (g.register r).2)
  | .link => (g.link.1.outcome, g.link.2)

/-- A graph, and the repositories that it had when it was linked last. -/
structure History where
  graph : Graph := {}
  linked : List RepositoryId := []

namespace History

/-- Makes a call and goes on with the graph that it leaves. -/
def step (h : History) (call : GraphCall) : History :=
  match call, call.apply h.graph with
  | .link, (.ok (), g) => ⟨g, h.graph.ids⟩
  | _, (_, g) => ⟨g, h.linked⟩

/-- The history of some calls from the empty graph on. -/
def run (calls : List GraphCall) : History := calls.foldl step {}

/-- Whether none of some calls fails. -/
def Succeeds (h : History) : List GraphCall → Prop
  | [] => True
  | call :: calls => (call.apply h.graph).1 = .ok () ∧ (h.step call).Succeeds calls

/-- What holds throughout a history. -/
structure Consistent (h : History) : Prop where
  indexed : h.graph.Indexed
  bindings : h.graph.Bindings
  perm : h.graph.buildOrder.Perm h.linked
  nodup : h.linked.Nodup
  lt_size : ∀ id ∈ h.linked, id.index < h.graph.size
  bound : ∀ id ∈ h.linked, ∀ dependency ∈ h.graph.includesOf id, dependency.bound.isSome
  unbound : ∀ id, id ∉ h.linked → ∀ dependency ∈ h.graph.includesOf id, dependency.bound = none
  before : ∀ id, ∀ target ∈ h.graph.boundOf id,
    h.graph.buildOrder.idxOf target < h.graph.buildOrder.idxOf id

theorem consistent_empty : Consistent {} where
  indexed key id := by simp [Graph.find?, Graph.repository?]
  bindings :=
    { find? := by simp [Graph.includesOf, Graph.repository?]
      nodup := List.nodup_nil
      mem_edges := by simp [Graph.boundOf, Graph.includesOf, Graph.repository?] }
  perm := List.Perm.refl _
  nodup := List.nodup_nil
  lt_size := by simp
  bound := by simp
  unbound := by simp [Graph.includesOf, Graph.repository?]
  before := by simp [Graph.boundOf, Graph.includesOf, Graph.repository?]

/-! ### What a call does -/

/-- What a call can come to: a failure that leaves the graph as it was, one more repository, or all
includes bound and an order of building. -/
inductive Applied (g : Graph) : GraphCall → Except Fault Unit × Graph → Prop
  | failed (call : GraphCall) (fault : Fault) : Applied g call (.error fault, g)
  | registered (d : Description) (r : Repository) (hr : (Repository.ofDescription d).outcome = .ok r)
    (hkey : g.find? r.key = none) : Applied g (.register d) (.ok (), g.extend r)
  | linked (order : List Nat) (g' : Graph)
    (horder : dependencyOrder (g.repositories.map (·.entry)) = .ok order)
    (hbinds : g.Binds g') (hbindings : g'.Bindings)
    (hbound : ∀ id, ∀ dependency ∈ g'.includesOf id, dependency.bound.isSome) :
    Applied g .link (.ok (), { g' with buildOrder := order.map (⟨·⟩) })

theorem apply_register {g : Graph} {d : Description} {r : Repository}
    (hr : (Repository.ofDescription d).outcome = .ok r) (hkey : g.find? r.key = none) :
    (GraphCall.register d).apply g = (.ok (), g.extend r) := by
  simp only [GraphCall.apply, hr, Graph.register_of_eq_none hkey]
  rfl

theorem applied {g : Graph} (hindexed : g.Indexed) (hbindings : g.Bindings) (call : GraphCall) :
    Applied g call (call.apply g) := by
  cases call with
  | register d =>
      cases hr : (Repository.ofDescription d).outcome with
      | error fault =>
          rw [GraphCall.apply, hr]
          exact .failed _ fault
      | ok r =>
          cases hkey : g.find? r.key with
          | none =>
              rw [apply_register hr hkey]
              exact .registered d r hr hkey
          | some id =>
              have hsome : (g.find? r.key).isSome := by rw [hkey, Option.isSome_some]
              simp only [GraphCall.apply, hr, Graph.register_of_isSome hsome]
              exact .failed _ _
  | link =>
      rcases Graph.link_cases hindexed hbindings with
        ⟨fault, -, hlink⟩ | ⟨order, g', horder, hbinds, hbindings, hbound, hok, hleft⟩
      · rw [GraphCall.apply, hlink]
        exact .failed _ fault
      · rw [GraphCall.apply, hok, hleft]
        exact .linked order g' horder hbinds hbindings hbound

variable {h : History}

theorem step_register {d : Description} {r : Repository}
    (hr : (Repository.ofDescription d).outcome = .ok r) (hkey : h.graph.find? r.key = none) :
    h.step (.register d) = ⟨h.graph.extend r, h.linked⟩ := by
  simp only [step, apply_register hr hkey]

/-- What a call can do: nothing, register a repository, or bind all includes in an order of
building. -/
inductive Effect (h : History) : History → Prop
  | unchanged : Effect h h
  | registered (d : Description) (r : Repository) (hr : (Repository.ofDescription d).outcome = .ok r)
    (hkey : h.graph.find? r.key = none) : Effect h ⟨h.graph.extend r, h.linked⟩
  | linked (order : List Nat) (g : Graph)
    (horder : dependencyOrder (h.graph.repositories.map (·.entry)) = .ok order)
    (hbinds : h.graph.Binds g) (hbindings : g.Bindings)
    (hbound : ∀ id, ∀ dependency ∈ g.includesOf id, dependency.bound.isSome) :
    Effect h ⟨{ g with buildOrder := order.map (⟨·⟩) }, h.graph.ids⟩

theorem Consistent.effect_step (hh : h.Consistent) (call : GraphCall) : Effect h (h.step call) := by
  have happlied := applied hh.indexed hh.bindings call
  unfold History.step
  generalize call.apply h.graph = result at happlied ⊢
  cases happlied with
  | failed => cases call <;> exact .unchanged
  | registered d r hr hkey => exact .registered d r hr hkey
  | linked order g horder hbinds hbindings hbound =>
      exact .linked order g horder hbinds hbindings hbound

/-- Registering leaves a history consistent: the new repository has no bound include. -/
theorem Consistent.extend (hh : h.Consistent) {r : Repository} (hkey : h.graph.find? r.key = none)
    (hunbound : ∀ dependency ∈ r.includes, dependency.bound = none) :
    Consistent ⟨h.graph.extend r, h.linked⟩ := by
  have hboundOf : ∀ id, (h.graph.extend r).boundOf id = h.graph.boundOf id := by
    intro id
    rw [Graph.boundOf, Graph.boundOf, Graph.includesOf_extend]
    by_cases hid : id.index = h.graph.size
    · have hnone : h.graph.includesOf id = [] := by
        rw [Graph.includesOf, Graph.repository?, List.getElem?_eq_none hid.ge, Option.elim_none]
      rw [if_pos hid, hnone, List.filterMap_nil, List.filterMap_eq_nil_iff]
      exact hunbound
    · rw [if_neg hid]
  constructor
  · exact hh.indexed.extend hkey
  · constructor
    · intro id dependency hmem target htarget
      rw [Graph.includesOf_extend] at hmem
      rw [Graph.find?_extend]
      split at hmem
      · rw [hunbound dependency hmem] at htarget
        cases htarget
      · have hfound := hh.bindings.find? id dependency hmem target htarget
        rw [if_neg, hfound]
        rintro heq
        rw [heq, hkey] at hfound
        cases hfound
    · exact hh.bindings.nodup
    · intro a b
      rw [hboundOf]
      exact hh.bindings.mem_edges a b
  · exact hh.perm
  · exact hh.nodup
  · intro id hid
    rw [Graph.size_extend]
    have := hh.lt_size id hid
    omega
  · intro id hid dependency hmem
    have hlt := hh.lt_size id hid
    rw [Graph.includesOf_extend, if_neg (by omega)] at hmem
    exact hh.bound id hid dependency hmem
  · intro id hid dependency hmem
    rw [Graph.includesOf_extend] at hmem
    split at hmem
    · exact hunbound dependency hmem
    · exact hh.unbound id hid dependency hmem
  · intro id target htarget
    rw [hboundOf] at htarget
    exact hh.before id target htarget

theorem idxOf_map_mk (order : List Nat) (id : RepositoryId) :
    (order.map (⟨·⟩ : Nat → RepositoryId)).idxOf id = order.idxOf id.index := by
  induction order with
  | nil => rfl
  | cons i order ih =>
      rw [List.map_cons, List.idxOf_cons, List.idxOf_cons, ih]
      by_cases hi : i = id.index
      · subst hi
        simp
      · have hne : (⟨i⟩ : RepositoryId) ≠ id := fun heq => hi (congrArg RepositoryId.index heq)
        rw [beq_false_of_ne hi, beq_false_of_ne hne]

/-- Linking leaves a history consistent: all includes are bound, each to a repository that the order of
building has before the including one. -/
theorem Consistent.relink (hh : h.Consistent) {order : List Nat} {g : Graph}
    (horder : dependencyOrder (h.graph.repositories.map (·.entry)) = .ok order)
    (hbinds : h.graph.Binds g) (hbindings : g.Bindings)
    (hbound : ∀ id, ∀ dependency ∈ g.includesOf id, dependency.bound.isSome) :
    Consistent ⟨{ g with buildOrder := order.map (⟨·⟩) }, h.graph.ids⟩ := by
  constructor
  · exact hbinds.indexed hh.indexed
  · exact ⟨hbindings.find?, hbindings.nodup, hbindings.mem_edges⟩
  · have hperm := (perm_of_dependencyOrder horder).map (⟨·⟩ : Nat → RepositoryId)
    rw [List.length_map] at hperm
    exact hperm
  · exact Graph.nodup_ids
  · intro id hid
    have hlt := Graph.mem_ids.mp hid
    rw [← hbinds.size_eq] at hlt
    exact hlt
  · intro id _
    exact hbound id
  · intro id hid dependency hmem
    have hlt := Graph.lt_of_mem_includesOf hmem
    rw [Graph.mem_ids] at hid
    exact absurd (hbinds.size_eq ▸ hlt) hid
  · intro id target htarget
    obtain ⟨dependency, hmem, htarget⟩ := Graph.mem_boundOf.mp htarget
    -- Both ends of the include have entries in the graph before the call.
    obtain ⟨earlier, hearlier, hkey⟩ := hbinds.exists_mem_includesOf hmem
    have hfound := hbindings.find? id dependency hmem target htarget
    rw [hbinds.find?_eq, hh.indexed] at hfound
    obtain ⟨included, hincluded, hincludedKey⟩ := hfound
    cases hid : h.graph.repository? id with
    | none => simp [Graph.includesOf, hid] at hearlier
    | some r =>
        rw [Graph.includesOf_eq hid] at hearlier
        have hi : (h.graph.repositories.map (·.entry))[id.index]? = some r.entry := by
          rw [List.getElem?_map, ← Graph.repository?, hid, Option.map_some]
        have hj : (h.graph.repositories.map (·.entry))[target.index]? = some included.entry := by
          rw [List.getElem?_map, ← Graph.repository?, hincluded, Option.map_some]
        rw [idxOf_map_mk, idxOf_map_mk]
        refine idxOf_lt_of_dependencyOrder horder hi hj (List.mem_map.mpr ⟨earlier, hearlier, ?_⟩)
        rw [hkey, ← hincludedKey]
        rfl

theorem Consistent.step (hh : h.Consistent) (call : GraphCall) : (h.step call).Consistent := by
  have heffect := hh.effect_step call
  generalize h.step call = h' at heffect ⊢
  cases heffect with
  | unchanged => exact hh
  | registered d r hr hkey => exact hh.extend hkey (Repository.bound_of_ofDescription hr)
  | linked order g horder hbinds hbindings hbound => exact hh.relink horder hbinds hbindings hbound

theorem consistent_foldl (hh : h.Consistent) (calls : List GraphCall) :
    (calls.foldl History.step h).Consistent := by
  induction calls generalizing h with
  | nil => exact hh
  | cons call calls ih => exact ih (hh.step call)

theorem run_consistent (calls : List GraphCall) : (run calls).Consistent :=
  consistent_foldl consistent_empty calls

/-! ### What follows -/

theorem mem_sorted {ids : List RepositoryId} {id : RepositoryId} : id ∈ Graph.sorted ids ↔ id ∈ ids :=
  (List.mergeSort_perm ids _).mem_iff

theorem pairwise_sorted {ids : List RepositoryId} (h : ids.Nodup) :
    (Graph.sorted ids).Pairwise (·.index < ·.index) := by
  have hsorted : (Graph.sorted ids).Pairwise fun a b => decide (a.index ≤ b.index) := by
    apply List.pairwise_mergeSort
    · intro a b c hab hbc
      simp only [decide_eq_true_eq] at hab hbc ⊢
      exact hab.trans hbc
    · intro a b
      simp only [Bool.or_eq_true, decide_eq_true_eq]
      exact Nat.le_total a.index b.index
  have hnodup := (List.mergeSort_perm ids fun a b => decide (a.index ≤ b.index)).nodup_iff.mpr h
  refine (hsorted.and hnodup).imp ?_
  rintro ⟨a⟩ ⟨b⟩ ⟨hle, hne⟩
  have hne : a ≠ b := fun heq => hne (by rw [heq])
  simp only [decide_eq_true_eq] at hle
  show a < b
  omega

/-- The structures of a graph agree with one another and with what was linked last. -/
structure WellFormed (h : History) : Prop where
  mem_ids : ∀ id, id ∈ h.graph.ids ↔ (h.graph.repository? id).isSome
  distinct : (h.graph.repositories.map (·.key)).Nodup
  find? : ∀ key id,
    h.graph.find? key = some id ↔ ∃ r, h.graph.repository? id = some r ∧ r.key = key
  all_or_none : ∀ id r, h.graph.repository? id = some r →
    r.isLinked ∨ ∀ dependency ∈ r.includes, dependency.bound = none
  isLinked : ∀ id ∈ h.graph.buildOrder, ∃ r, h.graph.repository? id = some r ∧ r.isLinked
  target : ∀ id r, h.graph.repository? id = some r → ∀ dependency ∈ r.includes, ∀ target,
    dependency.bound = some target →
      ∃ included, h.graph.repository? target = some included ∧ included.key = dependency.key
  acyclic : ∀ id, ¬TransGen (fun a b => b ∈ h.graph.boundOf a) id id
  perm : h.graph.buildOrder.Perm h.linked
  nodup : h.graph.buildOrder.Nodup
  before : ∀ id ∈ h.graph.buildOrder, ∀ target ∈ h.graph.boundOf id,
    target ∈ h.graph.buildOrder ∧
      h.graph.buildOrder.idxOf target < h.graph.buildOrder.idxOf id
  ascending : ∀ id, (h.graph.dependencies id).Pairwise (·.index < ·.index)
  mem_dependencies : ∀ id target, target ∈ h.graph.dependencies id ↔ target ∈ h.graph.boundOf id
  mem_dependents : ∀ a b, b ∈ h.graph.dependents a ↔ a ∈ h.graph.dependencies b

namespace Consistent

variable (hh : h.Consistent)

include hh

theorem mem_dependencies {id target : RepositoryId} :
    target ∈ h.graph.dependencies id ↔ target ∈ h.graph.boundOf id := by
  rw [Graph.dependencies, mem_sorted, ← hh.bindings.mem_edges, List.mem_map]
  constructor
  · rintro ⟨⟨a, b⟩, hmem, rfl⟩
    obtain ⟨hedge, heq⟩ := List.mem_filter.mp hmem
    obtain rfl : b = id := by simpa using heq
    exact hedge
  · intro hmem
    exact ⟨(target, id), List.mem_filter.mpr ⟨hmem, by simp⟩, rfl⟩

theorem mem_dependents {id includer : RepositoryId} :
    includer ∈ h.graph.dependents id ↔ id ∈ h.graph.boundOf includer := by
  rw [Graph.dependents, mem_sorted, ← hh.bindings.mem_edges, List.mem_map]
  constructor
  · rintro ⟨⟨a, b⟩, hmem, rfl⟩
    obtain ⟨hedge, heq⟩ := List.mem_filter.mp hmem
    obtain rfl : a = id := by simpa using heq
    exact hedge
  · intro hmem
    exact ⟨(id, includer), List.mem_filter.mpr ⟨hmem, by simp⟩, rfl⟩

theorem nodup_targets (id : RepositoryId) : ((h.graph.edges.filter (·.2 = id)).map (·.1)).Nodup := by
  refine (hh.bindings.nodup.filter _).map_on ?_
  rintro ⟨a, b⟩ ha ⟨a', b'⟩ ha' heq
  have hb : b = id := by simpa using (List.mem_filter.mp ha).2
  have hb' : b' = id := by simpa using (List.mem_filter.mp ha').2
  exact Prod.ext heq (hb.trans hb'.symm)

theorem not_transGen (id : RepositoryId) : ¬TransGen (fun a b => b ∈ h.graph.boundOf a) id id := by
  have hlt : ∀ {a b}, TransGen (fun a b => b ∈ h.graph.boundOf a) a b →
      h.graph.buildOrder.idxOf b < h.graph.buildOrder.idxOf a := by
    intro a b hpath
    induction hpath with
    | single hab => exact hh.before _ _ hab
    | tail _ hbc ih => exact (hh.before _ _ hbc).trans ih
  exact fun hloop => lt_irrefl _ (hlt hloop)

theorem exists_repository_of_mem {id : RepositoryId} (hid : id ∈ h.graph.buildOrder) :
    ∃ r, h.graph.repository? id = some r := by
  have hlt := hh.lt_size id (hh.perm.mem_iff.mp hid)
  exact ⟨_, List.getElem?_eq_getElem hlt⟩

theorem isLinked_of_mem {id : RepositoryId} {r : Repository} (hid : id ∈ h.graph.buildOrder)
    (hr : h.graph.repository? id = some r) : r.isLinked := by
  rw [Repository.isLinked, List.all_eq_true]
  rw [← Graph.includesOf_eq hr]
  exact hh.bound id (hh.perm.mem_iff.mp hid)

theorem mem_buildOrder_of_mem_boundOf {id target : RepositoryId} (h' : target ∈ h.graph.boundOf id) :
    target ∈ h.graph.buildOrder :=
  List.idxOf_lt_length_iff.mp ((hh.before id target h').trans_le List.idxOf_le_length)

theorem wellFormed : h.WellFormed where
  mem_ids id := by
    rw [Graph.mem_ids, Graph.repository?]
    simp [Graph.size]
  distinct := hh.indexed.nodup
  find? := hh.indexed
  all_or_none id r hr := by
    by_cases hid : id ∈ h.graph.buildOrder
    · exact Or.inl (hh.isLinked_of_mem hid hr)
    · have hunbound := hh.unbound id fun hmem => hid (hh.perm.mem_iff.mpr hmem)
      rw [Graph.includesOf_eq hr] at hunbound
      exact Or.inr hunbound
  isLinked id hid := by
    obtain ⟨r, hr⟩ := hh.exists_repository_of_mem hid
    exact ⟨r, hr, hh.isLinked_of_mem hid hr⟩
  target id r hr dependency hmem target htarget := by
    rw [← Graph.includesOf_eq hr] at hmem
    exact (hh.indexed _ _).mp (hh.bindings.find? id dependency hmem target htarget)
  acyclic := hh.not_transGen
  perm := hh.perm
  nodup := hh.perm.nodup_iff.mpr hh.nodup
  before id _ target htarget := ⟨hh.mem_buildOrder_of_mem_boundOf htarget, hh.before id target htarget⟩
  ascending id := pairwise_sorted (hh.nodup_targets id)
  mem_dependencies id target := hh.mem_dependencies
  mem_dependents a b := by rw [hh.mem_dependents, hh.mem_dependencies]

/-- A call that fails leaves the graph as it was. -/
theorem eq_of_apply_error {call : GraphCall} {fault : Fault} {g : Graph}
    (hcall : call.apply h.graph = (.error fault, g)) : g = h.graph := by
  have happlied := applied hh.indexed hh.bindings call
  rw [hcall] at happlied
  cases happlied with
  | failed => rfl

/-- Linking fails only for want of an order. -/
theorem dependencyOrder_of_link_error {fault : Fault} (hlink : h.graph.link.1.outcome = .error fault) :
    dependencyOrder (h.graph.repositories.map (·.entry)) = .error fault := by
  rcases Graph.link_cases hh.indexed hh.bindings with
    ⟨fault', horder, heq⟩ | ⟨order, g', -, -, -, -, hok, -⟩
  · rw [heq] at hlink
    cases hlink
    exact horder
  · rw [hok] at hlink
    cases hlink

/-- A call leaves the repositories that are linked as they are. -/
theorem repository?_step (call : GraphCall) {id : RepositoryId} {r : Repository}
    (hr : h.graph.repository? id = some r) (hlinked : r.isLinked) :
    (h.step call).graph.repository? id = some r := by
  have heffect := hh.effect_step call
  generalize h.step call = h' at heffect ⊢
  cases heffect with
  | unchanged => exact hr
  | registered d added _ _ =>
      have hlt := Graph.lt_of_repository? hr
      rw [Graph.repository?_extend, if_neg (by omega)]
      exact hr
  | linked order g _ hbinds _ _ => exact hbinds.repository?_of_isLinked hr hlinked

end Consistent

theorem repository?_foldl (hh : h.Consistent) (calls : List GraphCall) {id : RepositoryId}
    {r : Repository} (hr : h.graph.repository? id = some r) (hlinked : r.isLinked) :
    (calls.foldl step h).graph.repository? id = some r := by
  induction calls generalizing h with
  | nil => exact hr
  | cons call calls ih => exact ih (hh.step call) (hh.repository?_step call hr hlinked)

/-- An include that is bound stays as it is, since its repository is linked. -/
theorem getElem?_foldl (hh : h.Consistent) (calls : List GraphCall) {id : RepositoryId}
    {position : Nat} {dependency : Include}
    (hdependency : (h.graph.includesOf id)[position]? = some dependency)
    (hbound : dependency.bound.isSome) :
    ((calls.foldl step h).graph.includesOf id)[position]? = some dependency := by
  have hmem := List.mem_of_getElem? hdependency
  cases hr : h.graph.repository? id with
  | none => simp [Graph.includesOf, hr] at hmem
  | some r =>
      rw [Graph.includesOf_eq hr] at hdependency hmem
      rcases hh.wellFormed.all_or_none id r hr with hlinked | hunbound
      · rw [Graph.includesOf_eq (repository?_foldl hh calls hr hlinked)]
        exact hdependency
      · rw [hunbound dependency hmem] at hbound
        cases hbound

/-- After any calls, the structures of the graph agree. A further call that fails leaves the graph as it
was, linking never finds an include bound elsewhere, and a bound include stays as it is whatever
follows. -/
theorem run_invariant (calls : List GraphCall) :
    (run calls).WellFormed ∧
    (∀ call fault g, GraphCall.apply (run calls).graph call = (.error fault, g) →
      g = (run calls).graph) ∧
    (∀ name, (run calls).graph.link.1.outcome ≠ .error (.includeRebound name)) ∧
    ∀ more id (position : Nat) dependency,
      ((run calls).graph.includesOf id)[position]? = some dependency → dependency.bound.isSome →
        ((run (calls ++ more)).graph.includesOf id)[position]? = some dependency := by
  have hh := run_consistent calls
  refine ⟨hh.wellFormed, fun call fault g => hh.eq_of_apply_error, ?_, ?_⟩
  · intro name hlink
    cases orderFault_of_dependencyOrder (hh.dependencyOrder_of_link_error hlink)
  · intro more id position dependency hdependency hbound
    rw [run, List.foldl_append]
    exact getElem?_foldl hh more hdependency hbound

end History

end Interop
