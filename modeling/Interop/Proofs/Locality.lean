import Mathlib
import Interop.Proofs.Build
import Interop.Proofs.Emission

/-! Locality. What is looked up, decided or emitted for a linked repository depends on the descriptions of
the repository and of those that it includes, however indirectly, and on nothing else: not on the other
repositories of the graph, on the order in which they came, or on what is registered and linked later.
Main statement: `answers_local`. -/

namespace Interop

open Relation

/-! ### Graphs -/

/-- The graphs that are built of descriptions, or reached from the empty graph, and what calls make of
them. -/
inductive Obtained : Graph → Prop
  | empty : Obtained {}
  | build (ds : List Description) (g : Graph) (h : (Graph.build ds).outcome = .ok g) : Obtained g
  | call (g : Graph) (h : Obtained g) (call : GraphCall) : Obtained (call.apply g).2

namespace Graph

/-- What some calls, failed ones among them, make of a graph. -/
def after (g : Graph) (calls : List GraphCall) : Graph :=
  calls.foldl (fun g call => (call.apply g).2) g

/-- The repository with a key is what a description gives, up to the binding of its includes. -/
def BuiltFrom (g : Graph) (key : NamespaceKey) (d : Description) : Prop :=
  ∃ id r, g.find? key = some id ∧ g.repository? id = some r ∧
    (Repository.ofDescription d).outcome = .ok r.unlinked

/-- Every repository comes from a description, up to the binding of its includes. -/
def Sourced (g : Graph) : Prop :=
  ∀ id r, g.repository? id = some r → ∃ d, (Repository.ofDescription d).outcome = .ok r.unlinked

/-- The position of the repository in another graph that has the same key. -/
def counterpart (g g' : Graph) (id : RepositoryId) : RepositoryId :=
  ((g.repository? id).bind fun r => g'.find? r.key).getD id

/-- Another graph gives the same answers for a repository that it has under another position: the same
faults, and the same results up to the positions. What is emitted is the same altogether. -/
structure SameAnswers (g g' : Graph) (ρ : RepositoryId → RepositoryId) (id : RepositoryId) : Prop where
  key : ∀ a ∈ g.reachable id, ∃ r r', g.repository? a = some r ∧ g'.repository? (ρ a) = some r' ∧
    r'.key = r.key
  lookupSymbol : ∀ name, g'.lookupSymbol (ρ id) name = (g.lookupSymbol id name).map (·.rename ρ)
  resolveName : ∀ name, g'.resolveName (ρ id) name = (g.resolveName id name).map (·.rename ρ)
  aliasHop : ∀ s, g'.aliasHop (ρ id) s = g.aliasHop id s
  decide : ∀ reference, g'.decide (ρ id) reference = (g.decide id reference).map (·.rename ρ)
  content? : (Emitter.mk g' (ρ id)).content? = (Emitter.mk g id).content?
  items : ∀ ns, (Emitter.mk g' (ρ id)).items ns = (Emitter.mk g id).items ns
  emit : ∀ item, (((Emitter.mk g' (ρ id)).emit item).run.run {}).1 =
    (((Emitter.mk g id).emit item).run.run {}).1

end Graph

namespace History

theorem graph_step (h : History) (call : GraphCall) : (h.step call).graph = (call.apply h.graph).2 := by
  unfold step
  split
  · next g heq => rw [heq]
  · next heq => rw [heq]

theorem graph_foldl (h : History) (calls : List GraphCall) :
    (calls.foldl step h).graph = h.graph.after calls := by
  induction calls generalizing h with
  | nil => rfl
  | cons call calls ih =>
      rw [List.foldl_cons, ih, graph_step]
      rfl

end History

/-- Every such graph has a history. -/
theorem Obtained.exists_run {g : Graph} (h : Obtained g) :
    ∃ calls, (History.run calls).graph = g := by
  induction h with
  | empty => exact ⟨[], rfl⟩
  | build ds g h =>
      obtain ⟨described, -, -, hrun⟩ := (Graph.built_of_build h).history
      exact ⟨_, hrun⟩
  | call g _ call ih =>
      obtain ⟨calls, rfl⟩ := ih
      refine ⟨calls ++ [call], ?_⟩
      rw [History.run, List.foldl_append, List.foldl_cons, List.foldl_nil, History.graph_step,
        ← History.run]

theorem Obtained.exists_consistent {g : Graph} (h : Obtained g) :
    ∃ h : History, h.Consistent ∧ h.graph = g := by
  obtain ⟨calls, rfl⟩ := h.exists_run
  exact ⟨_, History.run_consistent calls, rfl⟩

theorem Obtained.after {g : Graph} (hg : Obtained g) (calls : List GraphCall) :
    Obtained (g.after calls) := by
  induction calls generalizing g with
  | nil => exact hg
  | cons call calls ih => exact ih (hg.call g call)

/-! ### From one graph to another -/

namespace Graph.Transport

variable {g g' : Graph} {ρ : RepositoryId → RepositoryId} {ids : List RepositoryId}
  (h : g.Transport g' ρ ids) {id : RepositoryId} (hid : id ∈ ids)

include h hid

theorem items_rename (ns : Namespace) : (Emitter.mk g' (ρ id)).items ns = (Emitter.mk g id).items ns := by
  have hidentifier : (Emitter.mk g' (ρ id)).identifier = (Emitter.mk g id).identifier := by
    funext owner name
    exact h.identifier_rename hid owner name
  have hsignal : (Emitter.mk g' (ρ id)).signalIdentifier = (Emitter.mk g id).signalIdentifier := by
    funext owner signal
    exact h.signalIdentifier_rename hid owner signal
  simp only [Emitter.items, Emitter.enumerationItems, Emitter.classItems, Emitter.interfaceItems,
    Emitter.recordItems, Emitter.unionItems, Emitter.layoutItems, Emitter.memberItems,
    Emitter.signalItems, Emitter.callableItems, hidentifier, hsignal]

theorem sameAnswers : g.SameAnswers g' ρ id where
  key a ha := by
    obtain ⟨r, hr, hr'⟩ := h.repository a (h.mem_of_mem_reachable hid ha)
    exact ⟨r, r.rename ρ, hr, hr', rfl⟩
  lookupSymbol := h.lookupSymbol_rename hid
  resolveName := h.resolveName_rename hid
  aliasHop := h.aliasHop_rename hid
  decide := h.decide_rename hid
  content? := h.content?_rename hid
  items := h.items_rename hid
  emit item := by
    have hempty : Memo.Matches ρ ids id {} {} := by
      intro place slot
      have hnone : ∀ site, ({} : Memo).get? site = none := fun site => by simp [Memo.get?]
      rw [hnone, hnone]
      exact .none
    exact (h.simulates_item hid item {} {} hempty).1.eq

end Graph.Transport

namespace History.Consistent

variable {h : History} (hh : h.Consistent)

include hh

theorem exists_repository_of_mem_boundOf {id target : RepositoryId}
    (htarget : target ∈ h.graph.boundOf id) : ∃ dependency ∈ h.graph.includesOf id,
      ∃ included, dependency.bound = some target ∧ h.graph.repository? target = some included ∧
        included.key = dependency.key := by
  obtain ⟨dependency, hmem, hbound⟩ := Graph.mem_boundOf.mp htarget
  obtain ⟨included, hincluded, hkey⟩ :=
    (hh.indexed _ _).mp (hh.bindings.find? id dependency hmem target hbound)
  exact ⟨dependency, hmem, included, hbound, hincluded, hkey⟩

theorem mem_ids_of_mem_boundOf {id target : RepositoryId} (htarget : target ∈ h.graph.boundOf id) :
    target ∈ h.graph.ids := by
  obtain ⟨-, -, included, -, hincluded, -⟩ := hh.exists_repository_of_mem_boundOf htarget
  exact Graph.mem_ids.mpr (Graph.lt_of_repository? hincluded)

/-- The repositories seen from one come in breadth-first order of the bound includes. -/
theorem breadthFirst_reachable {id : RepositoryId} {r : Repository} (hr : h.graph.repository? id = some r) :
    Reach.BreadthFirst h.graph.boundOf id (h.graph.reachable id) :=
  Reach.breadthFirst_nodes (fun _ _ _ hb => hh.mem_ids_of_mem_boundOf hb) (by simp [Graph.ids])
    (Graph.mem_ids.mpr (Graph.lt_of_repository? hr))

/-- The repositories seen from one are those that bound includes lead to. -/
theorem mem_reachable_iff {id : RepositoryId} {r : Repository} (hr : h.graph.repository? id = some r)
    {a : RepositoryId} : a ∈ h.graph.reachable id ↔
      ReflTransGen (fun a b => b ∈ h.graph.boundOf a) id a :=
  (hh.breadthFirst_reachable hr).mem_iff a

theorem mem_reachable_of_mem_boundOf {id a b : RepositoryId} {r : Repository}
    (hr : h.graph.repository? id = some r) (ha : a ∈ h.graph.reachable id)
    (hb : b ∈ h.graph.boundOf a) : b ∈ h.graph.reachable id :=
  (hh.mem_reachable_iff hr).mpr (((hh.mem_reachable_iff hr).mp ha).tail hb)

/-- Bound includes lead from a linked repository to linked ones. -/
theorem mem_buildOrder_of_path {id a : RepositoryId} (hid : id ∈ h.graph.buildOrder)
    (hpath : ReflTransGen (fun a b => b ∈ h.graph.boundOf a) id a) : a ∈ h.graph.buildOrder := by
  cases hpath with
  | refl => exact hid
  | tail _ hb => exact hh.mem_buildOrder_of_mem_boundOf hb

/-- What is seen from a linked repository is linked. -/
theorem mem_buildOrder_of_mem_reachable {id a : RepositoryId} (hid : id ∈ h.graph.buildOrder)
    (ha : a ∈ h.graph.reachable id) : a ∈ h.graph.buildOrder :=
  hh.mem_buildOrder_of_path hid (Graph.path_of_mem_reachable ha)

/-- A bound include leads from one key to another that it includes. -/
theorem exists_includes_of_mem_boundOf {a b : RepositoryId} {r : Repository}
    (hr : h.graph.repository? a = some r) (hb : b ∈ h.graph.boundOf a) :
    ∃ included, h.graph.repository? b = some included ∧
      Includes (h.graph.repositories.map (·.entry)) r.key included.key := by
  obtain ⟨dependency, hmem, included, -, hincluded, hkey⟩ := hh.exists_repository_of_mem_boundOf hb
  rw [Graph.includesOf_eq hr] at hmem
  refine ⟨included, hincluded, r.entry, List.mem_map_of_mem (List.mem_of_getElem? hr), rfl, ?_⟩
  exact List.mem_map.mpr ⟨dependency, hmem, hkey.symm⟩

theorem key_eq_of_find? {key : NamespaceKey} {id : RepositoryId} {r : Repository}
    (hid : h.graph.find? key = some id) (hr : h.graph.repository? id = some r) : r.key = key := by
  obtain ⟨found, hfound, hkey⟩ := (hh.indexed key id).mp hid
  rw [hr] at hfound
  cases hfound
  exact hkey

theorem ofDescription_of_builtFrom {d : Description} {id : RepositoryId} {r : Repository}
    (hr : h.graph.repository? id = some r) (hd : h.graph.BuiltFrom r.key d) :
    (Repository.ofDescription d).outcome = .ok r.unlinked := by
  obtain ⟨other, found, hother, hfound, houtcome⟩ := hd
  rw [(hh.indexed r.key id).mpr ⟨r, hr, rfl⟩] at hother
  cases hother
  rw [hr] at hfound
  cases hfound
  exact houtcome

/-- What is bound in a repository of the order of building is determined by the keys. -/
theorem bound_eq_find? {id : RepositoryId} (hid : id ∈ h.graph.buildOrder) {dependency : Include}
    (hmem : dependency ∈ h.graph.includesOf id) : dependency.bound = h.graph.find? dependency.key := by
  obtain ⟨target, htarget⟩ :=
    Option.isSome_iff_exists.mp (hh.bound id (hh.perm.mem_iff.mp hid) dependency hmem)
  rw [htarget, hh.bindings.find? id dependency hmem target htarget]

/-- The includes of a repository of the order of building are bound as the keys are found. -/
theorem includes_eq {id : RepositoryId} {r : Repository} (hid : id ∈ h.graph.buildOrder)
    (hr : h.graph.repository? id = some r) :
    r.includes = r.unlinked.includes.map fun dependency =>
      { dependency with bound := h.graph.find? dependency.key } := by
  rw [Repository.unlinked, List.map_map]
  refine ((List.map_congr_left fun dependency hdependency => ?_).trans (List.map_id _)).symm
  rw [← Graph.includesOf_eq hr] at hdependency
  show { dependency with bound := h.graph.find? dependency.key } = dependency
  rw [← hh.bound_eq_find? hid hdependency]

theorem sourced_step (hs : h.graph.Sourced) (call : GraphCall) : (h.step call).graph.Sourced := by
  intro id r hr
  have heffect := hh.effect_step call
  generalize h.step call = h' at heffect hr
  cases heffect with
  | unchanged => exact hs id r hr
  | registered d added hadded _ =>
      rw [Graph.repository?_extend] at hr
      split at hr
      · cases hr
        exact ⟨d, by rw [Repository.unlinked_of_ofDescription hadded, hadded]⟩
      · exact hs id r hr
  | linked order g _ hbinds _ _ =>
      have hmap := hbinds.map_repository? id
      rw [show g.repository? id = some r from hr, Option.map_some] at hmap
      obtain ⟨earlier, hearlier, heq⟩ := Option.map_eq_some_iff.mp hmap.symm
      rw [← heq]
      exact hs id earlier hearlier

end History.Consistent

theorem History.sourced_foldl {h : History} (hh : h.Consistent) (hs : h.graph.Sourced)
    (calls : List GraphCall) : (calls.foldl step h).graph.Sourced := by
  induction calls generalizing h with
  | nil => exact hs
  | cons call calls ih => exact ih (hh.step call) (hh.sourced_step hs call)

theorem Obtained.sourced {g : Graph} (hg : Obtained g) : g.Sourced := by
  obtain ⟨calls, rfl⟩ := hg.exists_run
  have hempty : ({} : History).graph.Sourced := by
    intro id r hr
    cases hr
  exact History.sourced_foldl History.consistent_empty hempty calls

theorem Obtained.exists_builtFrom {g : Graph} (hg : Obtained g) {id : RepositoryId} {r : Repository}
    (hr : g.repository? id = some r) : ∃ d, g.BuiltFrom r.key d := by
  obtain ⟨d, hd⟩ := hg.sourced id r hr
  obtain ⟨h, hh, rfl⟩ := hg.exists_consistent
  exact ⟨d, id, r, (hh.indexed r.key id).mpr ⟨r, hr, rfl⟩, hr, hd⟩

/-- The content of a repository is what a description gives. -/
theorem Obtained.exists_content {g : Graph} (hg : Obtained g) {id : RepositoryId} {r : Repository}
    (hr : g.repository? id = some r) : ∃ key d, (Namespace.ofDescription key d).outcome = .ok r.content := by
  obtain ⟨d, hd⟩ := hg.sourced id r hr
  obtain ⟨entry, content, -, hcontent, hunlinked⟩ := Repository.ofDescription_eq_ok.mp hd
  obtain rfl : r.content = content := congrArg Repository.content hunlinked
  exact ⟨_, _, hcontent⟩

/-! ### Two graphs -/

namespace History

/-- A repository of one history has a counterpart in another one, which comes from an equal description and
is linked. -/
structure Twin (h h' : History) (a : RepositoryId) (r r' : Repository) : Prop where
  left : h.graph.repository? a = some r
  right : h'.graph.repository? (h.graph.counterpart h'.graph a) = some r'
  unlinked : r'.unlinked = r.unlinked
  mem : h.graph.counterpart h'.graph a ∈ h'.graph.buildOrder

variable {h h' : History} (hh : h.Consistent) (hh' : h'.Consistent)

theorem Twin.key_eq {a : RepositoryId} {r r' : Repository} (ht : Twin h h' a r r') : r'.key = r.key := by
  rw [← r'.key_unlinked, ht.unlinked, r.key_unlinked]

include hh hh'

omit hh' in
/-- A repository built from an equal description has its counterpart under its key. -/
theorem exists_counterpart {a : RepositoryId} {r : Repository} (hr : h.graph.repository? a = some r)
    {d : Description} (hd : h.graph.BuiltFrom r.key d) (hd' : h'.graph.BuiltFrom r.key d) :
    h'.graph.find? r.key = some (h.graph.counterpart h'.graph a) ∧
      ∃ r', h'.graph.repository? (h.graph.counterpart h'.graph a) = some r' ∧
        r'.unlinked = r.unlinked := by
  obtain ⟨a', r', hfind, hr', houtcome'⟩ := hd'
  have houtcome := hh.ofDescription_of_builtFrom hr hd
  rw [houtcome] at houtcome'
  have hcounterpart : h.graph.counterpart h'.graph a = a' := by
    rw [Graph.counterpart, hr, Option.bind_some, hfind, Option.getD_some]
  rw [hcounterpart]
  exact ⟨hfind, r', hr', (Except.ok.inj houtcome').symm⟩

/-- Following a bound include leads from one twin to another. -/
theorem Twin.exists_of_mem_boundOf {a b : RepositoryId} {r r' : Repository} (ht : Twin h h' a r r')
    (hb : b ∈ h.graph.boundOf a)
    (hsame : ∀ included, h.graph.repository? b = some included →
      ∃ d, h.graph.BuiltFrom included.key d ∧ h'.graph.BuiltFrom included.key d) :
    ∃ included included', Twin h h' b included included' := by
  obtain ⟨dependency, hmem, included, -, hincluded, hkey⟩ := hh.exists_repository_of_mem_boundOf hb
  obtain ⟨d, hd, hd'⟩ := hsame included hincluded
  obtain ⟨hfind, included', hincluded', hunlinked⟩ := exists_counterpart hh hincluded hd hd'
  refine ⟨included, included', hincluded, hincluded', hunlinked, ?_⟩
  -- The counterpart has an include with the same key, which is bound.
  have hmem' : dependency.unlinked ∈ r'.unlinked.includes := by
    rw [ht.unlinked]
    rw [Graph.includesOf_eq ht.left] at hmem
    exact List.mem_map_of_mem hmem
  obtain ⟨dependency', hdependency', heq⟩ := List.mem_map.mp hmem'
  rw [← Graph.includesOf_eq ht.right] at hdependency'
  have hkey' : dependency'.key = included.key := by
    rw [hkey, ← dependency'.key_unlinked, heq, dependency.key_unlinked]
  refine hh'.mem_buildOrder_of_mem_boundOf (Graph.mem_boundOf.mpr ⟨dependency', hdependency', ?_⟩)
  rw [hh'.bound_eq_find? ht.mem hdependency', hkey', hfind]

/-- Twins differ only in the positions that their includes are bound to. -/
theorem Twin.eq_rename {a : RepositoryId} {r r' : Repository} (ht : Twin h h' a r r')
    (hmem : a ∈ h.graph.buildOrder)
    (htwins : ∀ b ∈ h.graph.boundOf a, ∃ included included', Twin h h' b included included') :
    r' = r.rename (h.graph.counterpart h'.graph) := by
  have hincludes : ∀ dependency ∈ r.includes, h'.graph.find? dependency.key =
      dependency.bound.map (h.graph.counterpart h'.graph) := by
    intro dependency hdependency
    rw [← Graph.includesOf_eq ht.left] at hdependency
    have hbound := hh.bound_eq_find? hmem hdependency
    obtain ⟨b, hb⟩ :=
      Option.isSome_iff_exists.mp (hh.bound a (hh.perm.mem_iff.mp hmem) dependency hdependency)
    obtain ⟨included, included', htwin⟩ :=
      htwins b (Graph.mem_boundOf.mpr ⟨dependency, hdependency, hb⟩)
    rw [hb] at hbound ⊢
    have hkey := hh.key_eq_of_find? hbound.symm htwin.left
    exact (hh'.indexed _ _).mpr ⟨included', htwin.right, htwin.key_eq.trans hkey⟩
  have hcontent : r'.unlinked.content = r.unlinked.content := by rw [ht.unlinked]
  have hright := hh'.includes_eq ht.mem ht.right
  have hleft : r.unlinked.includes.map (fun dependency =>
      { dependency with bound := h'.graph.find? dependency.key }) =
      r.includes.map (·.rename (h.graph.counterpart h'.graph)) := by
    rw [Repository.unlinked, List.map_map]
    refine List.map_congr_left fun dependency hdependency => ?_
    show { dependency with bound := h'.graph.find? dependency.key } = _
    rw [hincludes dependency hdependency]
    rfl
  rw [ht.unlinked, hleft] at hright
  cases r
  cases r'
  exact Repository.mk.injEq .. ▸ ⟨hcontent, hright⟩

omit hh' in
/-- Twins of different repositories are different. -/
theorem Twin.eq_of_counterpart_eq {a b : RepositoryId} {ra ra' rb rb' : Repository}
    (hta : Twin h h' a ra ra') (htb : Twin h h' b rb rb')
    (heq : h.graph.counterpart h'.graph a = h.graph.counterpart h'.graph b) : a = b := by
  have hright := hta.right
  rw [heq, htb.right] at hright
  cases hright
  have hkey : ra.key = rb.key := hta.key_eq.symm.trans htb.key_eq
  have hfind := (hh.indexed ra.key a).mpr ⟨ra, hta.left, rfl⟩
  rw [(hh.indexed ra.key b).mpr ⟨rb, htb.left, hkey.symm⟩] at hfind
  exact (Option.some.inj hfind).symm

section Closure

variable {id : RepositoryId} {r : Repository} (hr : h.graph.repository? id = some r)
  (horder' : h.graph.counterpart h'.graph id ∈ h'.graph.buildOrder)
  (hsame : ∀ other, ReflTransGen (Includes (h.graph.repositories.map (·.entry))) r.key other →
    ∃ d, h.graph.BuiltFrom other d ∧ h'.graph.BuiltFrom other d)

include hr horder' hsame

/-- Along a path of bound includes, keys include one another and repositories have twins. -/
theorem exists_twin_of_path {a : RepositoryId}
    (ha : ReflTransGen (fun a b => b ∈ h.graph.boundOf a) id a) :
    ∃ included included', Twin h h' a included included' ∧
      ReflTransGen (Includes (h.graph.repositories.map (·.entry))) r.key included.key := by
  induction ha with
  | refl =>
      obtain ⟨d, hd, hd'⟩ := hsame r.key .refl
      obtain ⟨-, r', hr', hunlinked⟩ := exists_counterpart hh hr hd hd'
      exact ⟨r, r', ⟨hr, hr', hunlinked, horder'⟩, .refl⟩
  | @tail a b _ hb ih =>
      obtain ⟨ra, ra', htwin, hkeys⟩ := ih
      obtain ⟨rb, hrb, hincludes⟩ := hh.exists_includes_of_mem_boundOf htwin.left hb
      have hsameb : ∀ included, h.graph.repository? b = some included →
          ∃ d, h.graph.BuiltFrom included.key d ∧ h'.graph.BuiltFrom included.key d := by
        intro included hincluded
        rw [hrb] at hincluded
        cases hincluded
        exact hsame rb.key (hkeys.tail hincludes)
      obtain ⟨included, included', htwinb⟩ := htwin.exists_of_mem_boundOf hh hh' hb hsameb
      have heq : included = rb := Option.some.inj (htwinb.left.symm.trans hrb)
      exact ⟨included, included', htwinb, heq ▸ hkeys.tail hincludes⟩

theorem exists_twin {a : RepositoryId} (ha : a ∈ h.graph.reachable id) :
    ∃ included included', Twin h h' a included included' := by
  obtain ⟨included, included', htwin, -⟩ :=
    exists_twin_of_path hh hh' hr horder' hsame ((hh.mem_reachable_iff hr).mp ha)
  exact ⟨included, included', htwin⟩

theorem transport_counterpart (horder : id ∈ h.graph.buildOrder) :
    h.graph.Transport h'.graph (h.graph.counterpart h'.graph) (h.graph.reachable id) where
  nodup := Reach.nodup_nodes _ _ _
  inj a ha b hb heq := by
    obtain ⟨_, _, htwina⟩ := exists_twin hh hh' hr horder' hsame ha
    obtain ⟨_, _, htwinb⟩ := exists_twin hh hh' hr horder' hsame hb
    exact htwina.eq_of_counterpart_eq hh htwinb heq
  closed a ha b hb := hh.mem_reachable_of_mem_boundOf hr ha hb
  repository a ha := by
    obtain ⟨included, included', htwin⟩ := exists_twin hh hh' hr horder' hsame ha
    have htwins : ∀ b ∈ h.graph.boundOf a, ∃ included included', Twin h h' b included included' :=
      fun b hb => exists_twin hh hh' hr horder' hsame (hh.mem_reachable_of_mem_boundOf hr ha hb)
    have hmem := hh.mem_buildOrder_of_mem_reachable horder ha
    refine ⟨included, htwin.left, ?_⟩
    rw [htwin.right, htwin.eq_rename hh hh' hmem htwins]

end Closure

/-- Where all that a linked repository includes comes from equal descriptions, another graph that has the
repository linked answers alike. -/
theorem sameAnswers {key : NamespaceKey} {id id' : RepositoryId}
    (hid : h.graph.find? key = some id) (hid' : h'.graph.find? key = some id')
    (horder : id ∈ h.graph.buildOrder) (horder' : id' ∈ h'.graph.buildOrder)
    (hsame : ∀ other, ReflTransGen (Includes (h.graph.repositories.map (·.entry))) key other →
      ∃ d, h.graph.BuiltFrom other d ∧ h'.graph.BuiltFrom other d) :
    h.graph.counterpart h'.graph id = id' ∧
      h.graph.SameAnswers h'.graph (h.graph.counterpart h'.graph) id := by
  obtain ⟨r, hr, rfl⟩ := (hh.indexed key id).mp hid
  have hcounterpart : h.graph.counterpart h'.graph id = id' := by
    rw [Graph.counterpart, hr, Option.bind_some, hid', Option.getD_some]
  rw [← hcounterpart] at horder'
  have htransport := transport_counterpart hh hh' hr horder' hsame horder
  exact ⟨hcounterpart, htransport.sameAnswers (Reach.start_mem _ _ _)⟩

omit hh' in
theorem transport_foldl (calls : List GraphCall) {id : RepositoryId} (hid : id ∈ h.graph.buildOrder) :
    h.graph.Transport (calls.foldl step h).graph (fun a => a) (h.graph.reachable id) where
  nodup := Reach.nodup_nodes _ _ _
  inj _ _ _ _ heq := heq
  closed a ha b hb := by
    obtain ⟨r, hr⟩ := hh.exists_repository_of_mem hid
    exact hh.mem_reachable_of_mem_boundOf hr ha hb
  repository a ha := by
    have hmem := hh.mem_buildOrder_of_mem_reachable hid ha
    obtain ⟨r, hr⟩ := hh.exists_repository_of_mem hmem
    refine ⟨r, hr, ?_⟩
    rw [Repository.rename_id, repository?_foldl hh calls hr (hh.isLinked_of_mem hmem hr)]

omit hh' in
/-- Calls leave the answers for a linked repository as they are. -/
theorem sameAnswers_foldl (calls : List GraphCall) {id : RepositoryId}
    (hid : id ∈ h.graph.buildOrder) :
    h.graph.SameAnswers (calls.foldl step h).graph (fun a => a) id :=
  (transport_foldl hh calls hid).sameAnswers (Reach.start_mem _ _ _)

end History

/-- Answers are local. If a namespace is linked in two graphs and comes, with all that it includes, from
equal descriptions, then both graphs give the same answers for it, whatever else they have; and whatever
is registered or linked later changes no answer. -/
theorem answers_local {g g' : Graph} (hg : Obtained g) (hg' : Obtained g') {key : NamespaceKey}
    {id id' : RepositoryId} (hid : g.find? key = some id) (hid' : g'.find? key = some id')
    (horder : id ∈ g.buildOrder) (horder' : id' ∈ g'.buildOrder)
    (hsame : ∀ other, ReflTransGen (Includes (g.repositories.map (·.entry))) key other →
      ∃ d, g.BuiltFrom other d ∧ g'.BuiltFrom other d) :
    g.counterpart g' id = id' ∧ g.SameAnswers g' (g.counterpart g') id ∧
      ∀ calls, g.SameAnswers (g.after calls) (fun a => a) id := by
  obtain ⟨h, hh, rfl⟩ := hg.exists_consistent
  obtain ⟨h', hh', rfl⟩ := hg'.exists_consistent
  obtain ⟨hcounterpart, hanswers⟩ := History.sameAnswers hh hh' hid hid' horder horder' hsame
  refine ⟨hcounterpart, hanswers, fun calls => ?_⟩
  rw [← History.graph_foldl]
  exact History.sameAnswers_foldl hh calls horder

namespace Sample

/-- A description with aliases only, of version `2.0` like all that it includes. -/
def description (name : String) (includes : List String) (aliases : List Description.Alias) :
    Description where
  includes := includes.map fun included => { name := some included, version := some "2.0" }
  namespaceInfo := { name := some name, version := some "2.0", aliases }

def glib : Description :=
  description "GLib" [] [
    { name := some "Pid", ctype := some "GPid",
      target := some { name := some "gint", ctype := some "gint" } }]

def gobject : Description := description "GObject" ["GLib"] []

def gio : Description := description "Gio" ["GObject"] []

/-- Two namespaces, the included one first. -/
def small : Graph := ({} : Graph).after [.register glib, .register gobject, .link]

/-- Three namespaces, the included one last, with a call to `link` that fails before it is there. -/
def large : Graph :=
  ({} : Graph).after [.register gobject, .link, .register gio, .register glib, .link]

/-- What is built from the description of `GLib`, which includes nothing. -/
def glibRepository : Repository where
  content := {
    key := ⟨"GLib", "2.0"⟩
    aliases := [⟨.pascal "Pid", .ofString "GPid",
      .scalar ⟨some "gint", some (.ofString "gint")⟩ .aliasTarget⟩] }
  includes := []

/-- What is built from the description of `GObject`, with its include bound to a repository. -/
def gobjectRepository (included : Option RepositoryId) : Repository where
  content := { key := ⟨"GObject", "2.0"⟩ }
  includes := [⟨⟨"GLib", "2.0"⟩, "GObject-2.0", included⟩]

def gioRepository : Repository where
  content := { key := ⟨"Gio", "2.0"⟩ }
  includes := [⟨⟨"GObject", "2.0"⟩, "Gio-2.0", some ⟨0⟩⟩]

theorem ofDescription_glib : (Repository.ofDescription glib).outcome = .ok glibRepository := by
  cbv

theorem ofDescription_gobject :
    (Repository.ofDescription gobject).outcome = .ok (gobjectRepository none) := by
  cbv

theorem small_eq : small = {
    repositories := [glibRepository, gobjectRepository (some ⟨0⟩)]
    positions := [(⟨"GObject", "2.0"⟩, ⟨1⟩), (⟨"GLib", "2.0"⟩, ⟨0⟩)]
    edges := [(⟨0⟩, ⟨1⟩)]
    buildOrder := [⟨0⟩, ⟨1⟩] } := by
  cbv

theorem large_eq : large = {
    repositories := [gobjectRepository (some ⟨2⟩), gioRepository, glibRepository]
    positions := [(⟨"GLib", "2.0"⟩, ⟨2⟩), (⟨"Gio", "2.0"⟩, ⟨1⟩), (⟨"GObject", "2.0"⟩, ⟨0⟩)]
    edges := [(⟨0⟩, ⟨1⟩), (⟨2⟩, ⟨0⟩)]
    buildOrder := [⟨2⟩, ⟨0⟩, ⟨1⟩] } := by
  cbv

theorem builtFrom_glib :
    small.BuiltFrom ⟨"GLib", "2.0"⟩ glib ∧ large.BuiltFrom ⟨"GLib", "2.0"⟩ glib := by
  rw [small_eq, large_eq]
  exact ⟨⟨⟨0⟩, glibRepository, by decide, rfl, ofDescription_glib⟩,
    ⟨⟨2⟩, glibRepository, by decide, rfl, ofDescription_glib⟩⟩

theorem builtFrom_gobject :
    small.BuiltFrom ⟨"GObject", "2.0"⟩ gobject ∧ large.BuiltFrom ⟨"GObject", "2.0"⟩ gobject := by
  rw [small_eq, large_eq]
  exact ⟨⟨⟨1⟩, gobjectRepository (some ⟨0⟩), by decide, rfl, ofDescription_gobject⟩,
    ⟨⟨0⟩, gobjectRepository (some ⟨2⟩), by decide, rfl, ofDescription_gobject⟩⟩

end Sample

open Sample in
theorem answers_local_small_large :
    small.counterpart large ⟨1⟩ = ⟨0⟩ ∧ small.SameAnswers large (small.counterpart large) ⟨1⟩ ∧
      ∀ calls, small.SameAnswers (small.after calls) (fun a => a) ⟨1⟩ := by
  have hsmall : Obtained small := Obtained.empty.after _
  have hlarge : Obtained large := Obtained.empty.after _
  have hfind : small.find? ⟨"GObject", "2.0"⟩ = some ⟨1⟩ := by
    rw [small_eq]
    decide
  have hfind' : large.find? ⟨"GObject", "2.0"⟩ = some ⟨0⟩ := by
    rw [large_eq]
    decide
  have horder : (⟨1⟩ : RepositoryId) ∈ small.buildOrder := by
    rw [small_eq]
    decide
  have horder' : (⟨0⟩ : RepositoryId) ∈ large.buildOrder := by
    rw [large_eq]
    decide
  refine answers_local hsmall hlarge hfind hfind' horder horder' fun other hother => ?_
  have hcases : other = ⟨"GObject", "2.0"⟩ ∨ other = ⟨"GLib", "2.0"⟩ := by
    induction hother with
    | refl => exact Or.inl rfl
    | tail _ hstep _ =>
        obtain ⟨entry, hentry, rfl, hmem⟩ := hstep
        rw [small_eq] at hentry
        rcases List.mem_pair.mp hentry with rfl | rfl
        · cases hmem
        · exact Or.inr (List.mem_singleton.mp hmem)
  rcases hcases with rfl | rfl
  · exact ⟨gobject, builtFrom_gobject⟩
  · exact ⟨glib, builtFrom_glib⟩

end Interop
