import Interop.Proofs.History

/-! Building the graph of some descriptions. It succeeds exactly if the names are given, the entries can
be ordered and every description gives a repository; the calls that it makes on the graph do not fail
then. Main statement: `build_outcome`. -/

namespace Interop

open Relation

/-! ### Keys from descriptions -/

theorem require_eq_error {value : Option String} {declaration field : String} {fault : Fault} :
    require value declaration field = .error fault ↔
      value = none ∧ fault = .missingField declaration field := by
  cases value <;> simp [require, eq_comm]

/-- The namespace of a description and its includes have names and versions. -/
structure Description.Named (d : Description) : Prop where
  name : d.namespaceInfo.name.isSome
  version : d.namespaceInfo.version.isSome
  includes : ∀ i ∈ d.includes, i.name.isSome ∧ i.version.isSome

/-- The keys in a description, with nothing where a name or version is missing. -/
def Description.entry (d : Description) : IncludeEntry where
  key := ⟨d.namespaceInfo.name.getD "", d.namespaceInfo.version.getD ""⟩
  includes := d.includes.map fun i => ⟨i.name.getD "", i.version.getD ""⟩

theorem Description.Named.name_eq {d : Description} (h : d.Named) :
    d.namespaceInfo.name = some d.entry.key.name := by
  obtain ⟨name, hname⟩ := Option.isSome_iff_exists.mp h.name
  simp [entry, hname]

namespace NamespaceKey

theorem ofDescription_eq_ok {d : Description.Namespace} {key : NamespaceKey} :
    ofDescription d = .ok key ↔
      (d.name.isSome ∧ d.version.isSome) ∧ key = ⟨d.name.getD "", d.version.getD ""⟩ := by
  cases hname : d.name <;> cases hversion : d.version <;>
    simp [ofDescription, require, hname, hversion, bind, Except.bind, pure, Except.pure, eq_comm]

theorem ofInclude_eq_ok {owner key : NamespaceKey} {d : Description.Include} :
    owner.ofInclude d = .ok key ↔
      (d.name.isSome ∧ d.version.isSome) ∧ key = ⟨d.name.getD "", d.version.getD ""⟩ := by
  cases hname : d.name <;> cases hversion : d.version <;>
    simp [ofInclude, require, hname, hversion, bind, Except.bind, pure, Except.pure, eq_comm]

end NamespaceKey

namespace Repository

theorem entryOfDescription_eq_ok {d : Description} {entry : IncludeEntry} :
    entryOfDescription d = .ok entry ↔ d.Named ∧ entry = d.entry := by
  rw [entryOfDescription, bind_eq_ok]
  constructor
  · rintro ⟨key, hkey, h⟩
    obtain ⟨includes, hincludes, h⟩ := bind_eq_ok.mp h
    cases h
    obtain ⟨⟨hname, hversion⟩, rfl⟩ := NamespaceKey.ofDescription_eq_ok.mp hkey
    obtain ⟨hall, rfl⟩ := (mapM_eq_ok_iff fun _ _ => NamespaceKey.ofInclude_eq_ok).mp hincludes
    exact ⟨⟨hname, hversion, hall⟩, rfl⟩
  · rintro ⟨⟨hname, hversion, hall⟩, rfl⟩
    refine ⟨_, NamespaceKey.ofDescription_eq_ok.mpr ⟨⟨hname, hversion⟩, rfl⟩, ?_⟩
    refine bind_eq_ok.mpr ⟨_, (mapM_eq_ok_iff fun _ _ => NamespaceKey.ofInclude_eq_ok).mpr
      ⟨hall, rfl⟩, rfl⟩

/-- Only a missing name or version keeps a description from having its keys. -/
theorem entryOfDescription_eq_error {d : Description} {fault : Fault}
    (h : entryOfDescription d = .error fault) :
    ¬d.Named ∧ ∃ declaration field, fault = .missingField declaration field := by
  refine ⟨fun hnamed => ?_, ?_⟩
  · rw [entryOfDescription_eq_ok.mpr ⟨hnamed, rfl⟩] at h
    cases h
  · have hrequire : ∀ {value : Option String} {declaration field : String},
        require value declaration field = .error fault →
          ∃ declaration field, fault = .missingField declaration field :=
      fun h => ⟨_, _, (require_eq_error.mp h).2⟩
    rcases bind_eq_error.mp h with h | ⟨key, -, h⟩
    · rcases bind_eq_error.mp h with h | ⟨_, -, h⟩
      · exact hrequire h
      · rcases bind_eq_error.mp h with h | ⟨_, -, h⟩
        · exact hrequire h
        · cases h
    · rcases bind_eq_error.mp h with h | ⟨_, -, h⟩
      · obtain ⟨_, i, _, -, -, h⟩ := mapM_eq_error.mp h
        rcases bind_eq_error.mp h with h | ⟨_, -, h⟩
        · exact hrequire h
        · rcases bind_eq_error.mp h with h | ⟨_, -, h⟩
          · exact hrequire h
          · cases h
      · cases h

theorem entry_eq_of_ofDescription {d : Description} {r : Repository}
    (h : (ofDescription d).outcome = .ok r) : r.entry = d.entry :=
  (entryOfDescription_eq_ok.mp (entry_of_ofDescription h)).2

end Repository

/-! ### Registering in order -/

namespace Graph

/-- The descriptions at some positions. -/
def described (ds : List Description) (order : List Nat) : List Description :=
  order.filterMap (ds[·]?)

theorem forall₂_described {ds : List Description} {order : List Nat}
    (h : ∀ i ∈ order, i < ds.length) :
    List.Forall₂ (fun i d => ds[i]? = some d) order (described ds order) := by
  induction order with
  | nil => exact .nil
  | cons i order ih =>
      have hi := List.getElem?_eq_getElem (h i (by simp))
      rw [described, List.filterMap_cons_some hi]
      exact .cons hi (ih fun j hj => h j (List.mem_cons_of_mem _ hj))

theorem described_range (ds : List Description) : described ds (List.range ds.length) = ds := by
  have hmap : (List.range ds.length).map (ds[·]?) = ds.map some := by
    refine List.ext_getElem (by simp) fun i hi _ => ?_
    rw [List.length_map, List.length_range] at hi
    simp [hi]
  have hjoin := congrArg (List.filterMap id) hmap
  rw [List.filterMap_map, List.filterMap_map] at hjoin
  simpa [described, Function.comp_def] using hjoin

theorem described_perm {ds : List Description} {order : List Nat}
    (h : order.Perm (List.range ds.length)) : (described ds order).Perm ds := by
  have hperm := h.filterMap (ds[·]?)
  rw [← described, ← described, described_range] at hperm
  exact hperm

/-- Registering descriptions with distinct keys that the graph does not know fails only where a
description gives no repository. -/
theorem outcome_registerAll {ds : List Description} {order : List Nat} {g : Graph}
    (hdistinct : ((described ds order).map (·.entry.key)).Nodup)
    (hfresh : ∀ d ∈ described ds order, g.find? d.entry.key = none) :
    (registerAll ds g order).outcome =
      (described ds order).mapM (fun d => (Repository.ofDescription d).outcome) >>= fun rs =>
        .ok (rs.foldl extend g) := by
  induction order generalizing g with
  | nil => rfl
  | cons i order ih =>
      cases hi : ds[i]? with
      | none =>
          have hskip : described ds (i :: order) = described ds order := by
            rw [described, List.filterMap_cons_none hi, described]
          rw [hskip] at hdistinct hfresh ⊢
          rw [registerAll, hi]
          exact ih hdistinct hfresh
      | some d =>
          have htake : described ds (i :: order) = d :: described ds order := by
            rw [described, List.filterMap_cons_some hi, described]
          rw [htake] at hdistinct hfresh ⊢
          rw [List.map_cons, List.nodup_cons] at hdistinct
          rw [registerAll, hi, List.mapM_cons]
          simp only [Logged.outcome_bind, Logged.outcome_note, Logged.outcome_ofExcept]
          cases hr : (Repository.ofDescription d).outcome with
          | error fault => rfl
          | ok r =>
              have hkey : r.key = d.entry.key := by
                rw [← Repository.entry_eq_of_ofDescription hr]
                rfl
              have hnone : g.find? r.key = none := hkey ▸ hfresh d (by simp)
              have hfresh' : ∀ e ∈ described ds order, (g.extend r).find? e.entry.key = none := by
                intro e he
                have hne : e.entry.key ≠ r.key := by
                  intro heq
                  exact hdistinct.1 (List.mem_map.mpr ⟨e, he, heq.trans hkey⟩)
                rw [find?_extend, if_neg hne]
                exact hfresh e (List.mem_cons_of_mem _ he)
              have hrest := ih hdistinct.2 hfresh'
              simp only [bind, Except.bind, register_of_eq_none hnone, pure, Except.pure] at hrest ⊢
              rw [hrest]
              cases (described ds order).mapM fun d => (Repository.ofDescription d).outcome <;> rfl

theorem repositories_foldl_extend (g : Graph) (rs : List Repository) :
    (rs.foldl extend g).repositories = g.repositories ++ rs := by
  induction rs generalizing g with
  | nil => simp
  | cons r rs ih =>
      rw [List.foldl_cons, ih, extend]
      simp

end Graph

namespace History

/-- The calls that register descriptions one after another and link them. -/
def buildCalls (ds : List Description) : List GraphCall := ds.map .register ++ [.link]

theorem succeeds_append {h : History} {calls more : List GraphCall} :
    h.Succeeds (calls ++ more) ↔ h.Succeeds calls ∧ (calls.foldl step h).Succeeds more := by
  induction calls generalizing h with
  | nil => simp [Succeeds]
  | cons call calls ih =>
      rw [List.cons_append, Succeeds, Succeeds, ih, List.foldl_cons, and_assoc]

/-- Registering descriptions of repositories with new and distinct keys succeeds. -/
theorem foldl_register {h : History} {ds : List Description} {rs : List Repository}
    (hbuilt : List.Forall₂ (fun d r => (Repository.ofDescription d).outcome = .ok r) ds rs)
    (hdistinct : (rs.map (·.key)).Nodup) (hfresh : ∀ r ∈ rs, h.graph.find? r.key = none) :
    (ds.map .register).foldl step h = ⟨rs.foldl Graph.extend h.graph, h.linked⟩ ∧
      h.Succeeds (ds.map .register) := by
  induction hbuilt generalizing h with
  | nil => exact ⟨rfl, trivial⟩
  | @cons d r ds rs hr _ ih =>
      rw [List.map_cons, List.nodup_cons] at hdistinct
      have hnone : h.graph.find? r.key = none := hfresh r (by simp)
      have hstep := step_register hr hnone
      have hfresh' : ∀ other ∈ rs, (h.step (.register d)).graph.find? other.key = none := by
        intro other hother
        have hne : other.key ≠ r.key := fun heq =>
          hdistinct.1 (List.mem_map.mpr ⟨other, hother, heq⟩)
        rw [hstep, Graph.find?_extend, if_neg hne]
        exact hfresh other (List.mem_cons_of_mem _ hother)
      obtain ⟨hfold, hsucceeds⟩ := ih hdistinct.2 hfresh'
      rw [List.map_cons, List.foldl_cons, hfold, hstep]
      refine ⟨rfl, ?_, hsucceeds⟩
      rw [apply_register hr hnone]

end History

/-! ### Building -/

/-- Descriptions that a graph can be built of. -/
structure Buildable (ds : List Description) : Prop where
  named : ∀ d ∈ ds, d.Named
  orderable : Orderable (ds.map (·.entry))
  builds : ∀ d ∈ ds, ∃ r, (Repository.ofDescription d).outcome = .ok r

/-- Why no graph is built: the first description without its names goes before the entries that have no
order, and these before the first description, in order of building, that gives no repository. -/
inductive BuildFault (ds : List Description) : Fault → Prop
  | field (before : List Description) (d : Description) (after : List Description)
    (declaration field : String) (hds : ds = before ++ d :: after)
    (hbefore : ∀ other ∈ before, other.Named) (hnamed : ¬d.Named)
    (hd : Repository.entryOfDescription d = .error (.missingField declaration field)) :
    BuildFault ds (.missingField declaration field)
  | order (fault : Fault) (hnamed : ∀ d ∈ ds, d.Named)
    (hfault : OrderFault (ds.map (·.entry)) fault) : BuildFault ds fault
  | description (order before : List Nat) (i : Nat) (after : List Nat) (d : Description)
    (fault : Fault) (hnamed : ∀ d ∈ ds, d.Named)
    (horder : dependencyOrder (ds.map (·.entry)) = .ok order) (heq : order = before ++ i :: after)
    (hbefore : ∀ j ∈ before, ∃ e r, ds[j]? = some e ∧ (Repository.ofDescription e).outcome = .ok r)
    (hi : ds[i]? = some d) (hfault : (Repository.ofDescription d).outcome = .error fault) :
    BuildFault ds fault

/-- The graph of some descriptions: one repository for each of them, all linked, every one behind those
that it includes. It comes from the empty graph by calls none of which fails. -/
structure Built (ds : List Description) (g : Graph) : Prop where
  registered : ∃ order, dependencyOrder (ds.map (·.entry)) = .ok order ∧
    order.Perm (List.range ds.length) ∧ g.size = order.length ∧
    ∀ (k i : Nat), order[k]? = some i → ∃ d r, ds[i]? = some d ∧ g.repository? ⟨k⟩ = some r ∧
      (Repository.ofDescription d).outcome = .ok r.unlinked
  isLinked : ∀ id r, g.repository? id = some r → r.isLinked
  earlier : ∀ id, ∀ target ∈ g.boundOf id, target.index < id.index
  perm : g.buildOrder.Perm g.ids
  before : ∀ id, ∀ target ∈ g.boundOf id, g.buildOrder.idxOf target < g.buildOrder.idxOf id
  history : ∃ described : List Description, described.Perm ds ∧
    History.Succeeds {} (History.buildCalls described) ∧
    (History.run (History.buildCalls described)).graph = g

namespace Graph

theorem outcome_build (ds : List Description) :
    (build ds).outcome = ds.mapM Repository.entryOfDescription >>= fun entries =>
      dependencyOrder entries >>= fun order => (registerAll ds {} order).outcome >>= fun g =>
        g.link.1.outcome >>= fun _ => .ok g.link.2 := by
  simp only [build, Logged.outcome_bind, Logged.outcome_ofExcept, Logged.outcome_pure]

variable {ds : List Description} {order : List Nat} {rs : List Repository}

theorem mapM_entryOfDescription_eq_ok {entries : List IncludeEntry} :
    ds.mapM Repository.entryOfDescription = .ok entries ↔
      (∀ d ∈ ds, d.Named) ∧ entries = ds.map (·.entry) :=
  mapM_eq_ok_iff fun _ _ => Repository.entryOfDescription_eq_ok

section Ordered

variable (horder : dependencyOrder (ds.map (·.entry)) = .ok order)

include horder

theorem perm_range : order.Perm (List.range ds.length) := by
  have hperm := perm_of_dependencyOrder horder
  rwa [List.length_map] at hperm

theorem nodup_keys_described : ((described ds order).map (·.entry.key)).Nodup := by
  have hdistinct := (exists_dependencyOrder_iff.mp ⟨order, horder⟩).distinct
  rw [List.map_map] at hdistinct
  exact ((described_perm (perm_range horder)).map _).nodup_iff.mpr hdistinct

variable (hbuilt : (described ds order).mapM (fun d => (Repository.ofDescription d).outcome) = .ok rs)

include hbuilt

omit horder in
theorem map_entry_built : (described ds order).map (·.entry) = rs.map (·.entry) := by
  rw [← List.forall₂_eq_eq_eq, List.forall₂_map_left_iff, List.forall₂_map_right_iff]
  exact (mapM_eq_ok.mp hbuilt).imp fun d r hr => (Repository.entry_eq_of_ofDescription hr).symm

theorem orderable_built : Orderable (rs.map (·.entry)) := by
  rw [← map_entry_built hbuilt]
  exact (exists_dependencyOrder_iff.mp ⟨order, horder⟩).perm
    ((described_perm (perm_range horder)).symm.map _)

/-- The positions of a graph with these repositories are those of the descriptions in their order. -/
theorem registered_of_map_unlinked {g : Graph} (hg : g.repositories.map (·.unlinked) = rs) :
    g.size = order.length ∧ ∀ (k i : Nat), order[k]? = some i → ∃ d r, ds[i]? = some d ∧
      g.repository? ⟨k⟩ = some r ∧ (Repository.ofDescription d).outcome = .ok r.unlinked := by
  have hrange : ∀ i ∈ order, i < ds.length := fun i hi =>
    List.mem_range.mp ((perm_range horder).mem_iff.mp hi)
  have hdescribed := forall₂_described hrange
  have hrs := mapM_eq_ok.mp hbuilt
  subst hg
  constructor
  · rw [size, hdescribed.length_eq, hrs.length_eq, List.length_map]
  · intro k i hk
    obtain ⟨d, hd, hdi⟩ := exists_getElem?_right hdescribed hk
    obtain ⟨unlinked, hunlinked, hr⟩ := exists_getElem?_right hrs hd
    rw [List.getElem?_map, Option.map_eq_some_iff] at hunlinked
    obtain ⟨r, hr', rfl⟩ := hunlinked
    exact ⟨d, r, hdi, hr', hr⟩

end Ordered

/-- In the order of building, what a repository includes comes before it. -/
theorem index_lt_of_mem_boundOf {g : Graph} (horder : dependencyOrder (ds.map (·.entry)) = .ok order)
    (hindexed : g.Indexed) (hbindings : g.Bindings) (hsize : g.size = order.length)
    (hregistered : ∀ (k i : Nat), order[k]? = some i → ∃ d r, ds[i]? = some d ∧
      g.repository? ⟨k⟩ = some r ∧ (Repository.ofDescription d).outcome = .ok r.unlinked)
    {id target : RepositoryId} (h : target ∈ g.boundOf id) : target.index < id.index := by
  have hentry : ∀ id r, g.repository? id = some r → ∃ i, order[id.index]? = some i ∧
      (ds.map (·.entry))[i]? = some r.entry := by
    intro id r hr
    have hlt := hsize ▸ lt_of_repository? hr
    obtain ⟨d, r', hd, hr', hbuilt⟩ := hregistered id.index _ (List.getElem?_eq_getElem hlt)
    rw [hr] at hr'
    cases hr'
    refine ⟨_, List.getElem?_eq_getElem hlt, ?_⟩
    rw [List.getElem?_map, hd, Option.map_some, ← Repository.entry_eq_of_ofDescription hbuilt,
      Repository.entry_unlinked]
  obtain ⟨dependency, hmem, hbound⟩ := mem_boundOf.mp h
  obtain ⟨included, hincluded, hkey⟩ :=
    (hindexed _ _).mp (hbindings.find? id dependency hmem target hbound)
  cases hr : g.repository? id with
  | none => simp [includesOf, hr] at hmem
  | some r =>
      rw [includesOf_eq hr] at hmem
      obtain ⟨i, hi, hentryi⟩ := hentry id r hr
      obtain ⟨j, hj, hentryj⟩ := hentry target included hincluded
      have hlt := idxOf_lt_of_dependencyOrder horder hentryi hentryj
        (List.mem_map.mpr ⟨dependency, hmem, hkey.symm⟩)
      have hnodup : order.Nodup := (perm_range horder).nodup_iff.mpr List.nodup_range
      obtain ⟨hlti, hi⟩ := List.getElem?_eq_some_iff.mp hi
      obtain ⟨hltj, hj⟩ := List.getElem?_eq_some_iff.mp hj
      rw [← hi, ← hj, hnodup.idxOf_getElem, hnodup.idxOf_getElem] at hlt
      exact hlt

/-- If every description gives a repository, registering in order and linking succeed. -/
theorem exists_built (horder : dependencyOrder (ds.map (·.entry)) = .ok order)
    (hbuilt : (described ds order).mapM (fun d => (Repository.ofDescription d).outcome) = .ok rs) :
    (rs.foldl extend {}).link.1.outcome = .ok () ∧ Built ds (rs.foldl extend {}).link.2 := by
  have hkeys : (rs.map (·.key)).Nodup := by
    have hdistinct := (orderable_built horder hbuilt).distinct
    rwa [List.map_map] at hdistinct
  obtain ⟨hfold, hsucceeds⟩ := History.foldl_register (h := {}) (mapM_eq_ok.mp hbuilt) hkeys
    (fun _ _ => rfl)
  have hh : History.Consistent ⟨rs.foldl extend {}, []⟩ := by
    rw [← hfold]
    exact History.run_consistent _
  have hrepositories : (rs.foldl extend {}).repositories = rs := by
    rw [repositories_foldl_extend]
    rfl
  rcases link_cases hh.indexed hh.bindings with
    ⟨fault, hfault, -⟩ | ⟨order', g, horder', hbinds, hbindings, hbound, hok, hleft⟩
  · obtain ⟨found, hfound⟩ := exists_dependencyOrder_iff.mpr (orderable_built horder hbuilt)
    rw [hrepositories, hfound] at hfault
    cases hfault
  · have hlinked := hh.relink horder' hbinds hbindings hbound
    have hrun : History.run (History.buildCalls (described ds order)) =
        ⟨{ g with buildOrder := order'.map (⟨·⟩) }, (rs.foldl extend {}).ids⟩ := by
      rw [History.run, History.buildCalls, List.foldl_append, hfold]
      simp only [List.foldl_cons, List.foldl_nil, History.step, GraphCall.apply, hok, hleft]
    have hunlinked : g.repositories.map (·.unlinked) = rs := by
      rw [hbinds.unlinked, hrepositories]
      refine (List.map_congr_left fun r hr => ?_).trans (List.map_id rs)
      obtain ⟨d, -, hd⟩ := exists_mem_left (mapM_eq_ok.mp hbuilt) hr
      exact Repository.unlinked_of_ofDescription hd
    obtain ⟨hsize, hregistered⟩ := registered_of_map_unlinked horder hbuilt hunlinked
    refine ⟨hok, ?_⟩
    rw [hleft]
    constructor
    · exact ⟨order, horder, perm_range horder, hsize, hregistered⟩
    · intro id r hr
      rw [Repository.isLinked, List.all_eq_true, ← includesOf_eq hr]
      exact hbound id
    · intro id target htarget
      exact index_lt_of_mem_boundOf horder hlinked.indexed hlinked.bindings hsize hregistered htarget
    · have hids : g.ids = (rs.foldl extend {}).ids := by rw [ids, hbinds.size_eq, ids]
      have hperm := hlinked.perm
      rw [← hids] at hperm
      exact hperm
    · exact hlinked.before
    · refine ⟨described ds order, described_perm (perm_range horder), ?_, by rw [hrun]⟩
      rw [History.buildCalls, History.succeeds_append, hfold]
      exact ⟨hsucceeds, hok, trivial⟩

/-- What is built of descriptions whose entries have an order. -/
theorem outcome_build_of_order (hnamed : ∀ d ∈ ds, d.Named)
    (horder : dependencyOrder (ds.map (·.entry)) = .ok order) :
    (build ds).outcome =
      (described ds order).mapM (fun d => (Repository.ofDescription d).outcome) >>= fun rs =>
        .ok (rs.foldl extend {}).link.2 := by
  have hentries := mapM_entryOfDescription_eq_ok.mpr ⟨hnamed, rfl⟩
  rw [outcome_build, hentries]
  show (dependencyOrder (ds.map (·.entry)) >>= _) = _
  rw [horder]
  show ((registerAll ds {} order).outcome >>= _) = _
  rw [outcome_registerAll (nodup_keys_described horder) (fun _ _ => rfl)]
  cases hbuilt : (described ds order).mapM fun d => (Repository.ofDescription d).outcome with
  | error fault => rfl
  | ok rs =>
      show ((rs.foldl extend {}).link.1.outcome >>= _) = _
      rw [(exists_built horder hbuilt).1]
      rfl

/-- Descriptions that nothing is built of have a fault, and the earliest kind of fault is reported. -/
theorem buildFault_of_outcome {fault : Fault} (h : (build ds).outcome = .error fault) :
    BuildFault ds fault := by
  by_cases hnamed : ∀ d ∈ ds, d.Named
  · cases horder : dependencyOrder (ds.map (·.entry)) with
    | error earlier =>
        rw [outcome_build, mapM_entryOfDescription_eq_ok.mpr ⟨hnamed, rfl⟩] at h
        rcases bind_eq_error.mp h with h | ⟨entries, hentries, h⟩
        · cases h
        · cases hentries
          rw [horder] at h
          cases h
          exact .order fault hnamed (orderFault_of_dependencyOrder horder)
    | ok order =>
        rw [outcome_build_of_order hnamed horder] at h
        rcases bind_eq_error.mp h with h | ⟨rs, -, h⟩
        · obtain ⟨earlier, d, later, heq, hearlier, hfault⟩ := mapM_eq_error.mp h
          have hforall := forall₂_described fun i hi =>
            List.mem_range.mp ((perm_range horder).mem_iff.mp hi)
          rw [heq] at hforall
          have hbefore := List.forall₂_take_append _ _ _ hforall
          obtain ⟨i, after, hi, -, hdrop⟩ :=
            List.forall₂_cons_right_iff.mp (List.forall₂_drop_append _ _ _ hforall)
          refine .description order (order.take earlier.length) i after d fault hnamed horder ?_ ?_ hi
            hfault
          · rw [← hdrop, List.take_append_drop]
          · intro j hj
            obtain ⟨e, he, hje⟩ := exists_mem_right hbefore hj
            obtain ⟨r, hr⟩ := hearlier e he
            exact ⟨e, r, hje, hr⟩
        · cases h
  · cases hentries : ds.mapM Repository.entryOfDescription with
    | ok entries => exact absurd (mapM_entryOfDescription_eq_ok.mp hentries).1 hnamed
    | error earlier =>
        rw [outcome_build, hentries] at h
        cases h
        obtain ⟨before, d, after, hds, hbefore, hd⟩ := mapM_eq_error.mp hentries
        obtain ⟨hd', declaration, field, rfl⟩ := Repository.entryOfDescription_eq_error hd
        refine .field before d after declaration field hds ?_ hd' hd
        intro other hother
        obtain ⟨entry, hentry⟩ := hbefore other hother
        exact (Repository.entryOfDescription_eq_ok.mp hentry).1

/-- What it takes to build a graph, and which one it is. -/
theorem build_eq_ok {g : Graph} : (build ds).outcome = .ok g ↔ (∀ d ∈ ds, d.Named) ∧
    ∃ order, dependencyOrder (ds.map (·.entry)) = .ok order ∧
      ∃ rs, (described ds order).mapM (fun d => (Repository.ofDescription d).outcome) = .ok rs ∧
        g = (rs.foldl extend {}).link.2 := by
  constructor
  · intro h
    have hparts := h
    rw [outcome_build] at hparts
    obtain ⟨entries, hentries, hparts⟩ := bind_eq_ok.mp hparts
    obtain ⟨hnamed, rfl⟩ := mapM_entryOfDescription_eq_ok.mp hentries
    obtain ⟨order, horder, -⟩ := bind_eq_ok.mp hparts
    rw [outcome_build_of_order hnamed horder] at h
    obtain ⟨rs, hbuilt, h⟩ := bind_eq_ok.mp h
    cases h
    exact ⟨hnamed, order, horder, rs, hbuilt, rfl⟩
  · rintro ⟨hnamed, order, horder, rs, hbuilt, rfl⟩
    rw [outcome_build_of_order hnamed horder, hbuilt]
    rfl

theorem exists_build_iff : (∃ g, (build ds).outcome = .ok g) ↔ Buildable ds := by
  constructor
  · rintro ⟨g, h⟩
    obtain ⟨hnamed, order, horder, rs, hbuilt, -⟩ := build_eq_ok.mp h
    refine ⟨hnamed, exists_dependencyOrder_iff.mp ⟨order, horder⟩, fun d hd => ?_⟩
    exact exists_mapM_eq_ok.mp ⟨rs, hbuilt⟩ d ((described_perm (perm_range horder)).mem_iff.mpr hd)
  · intro h
    obtain ⟨order, horder⟩ := exists_dependencyOrder_iff.mpr h.orderable
    have hbuilds : ∀ d ∈ described ds order, ∃ r, (Repository.ofDescription d).outcome = .ok r :=
      fun d hd => h.builds d ((described_perm (perm_range horder)).mem_iff.mp hd)
    obtain ⟨rs, hbuilt⟩ := exists_mapM_eq_ok.mpr hbuilds
    exact ⟨_, build_eq_ok.mpr ⟨h.named, order, horder, rs, hbuilt, rfl⟩⟩

theorem built_of_build {g : Graph} (h : (build ds).outcome = .ok g) : Built ds g := by
  obtain ⟨-, order, horder, rs, hbuilt, rfl⟩ := build_eq_ok.mp h
  exact (exists_built horder hbuilt).2

/-- Building succeeds exactly if all names are given, the entries can be ordered and every description gives
a repository. What is built has every description once and everything linked, and otherwise the fault is
that of the first check that fails. -/
theorem build_outcome (ds : List Description) :
    ((∃ g, (build ds).outcome = .ok g) ↔ Buildable ds) ∧
    (∀ g, (build ds).outcome = .ok g → Built ds g) ∧
    ∀ fault, (build ds).outcome = .error fault → BuildFault ds fault := by
  refine ⟨exists_build_iff, fun g => built_of_build, fun fault => buildFault_of_outcome⟩

end Graph

end Interop
