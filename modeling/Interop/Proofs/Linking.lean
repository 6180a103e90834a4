import Interop.Graph
import Interop.Proofs.DependencyOrder

/-! Linking a graph. Binding the includes one after another changes nothing but the includes that are
not bound yet, and cannot fail once there is an order of building. Main statement: `link_cases`, what
linking can do. -/

namespace Interop

open Relation

/-- An include before it is bound. -/
def Include.unlinked (dependency : Include) : Include := { dependency with bound := none }

@[simp] theorem Include.key_unlinked (dependency : Include) : dependency.unlinked.key = dependency.key :=
  rfl

/-- An include that is not bound, or bound alike, can be bound. -/
theorem Include.bind_eq_ok {dependency : Include} {target : RepositoryId}
    (h : ∀ earlier, dependency.bound = some earlier → earlier = target) :
    dependency.bind target = .ok { dependency with bound := some target } := by
  rw [bind]
  cases hbound : dependency.bound with
  | none => rfl
  | some earlier =>
      obtain rfl := h earlier hbound
      simp only [if_true]
      rw [← hbound]

/-- A repository before its includes are bound. -/
def Repository.unlinked (r : Repository) : Repository :=
  { r with includes := r.includes.map (·.unlinked) }

@[simp] theorem Repository.key_unlinked (r : Repository) : r.unlinked.key = r.key := rfl

@[simp] theorem Repository.entry_unlinked (r : Repository) : r.unlinked.entry = r.entry := by
  simp only [entry, unlinked, List.map_map]
  rfl

namespace Graph

variable {g g' g'' : Graph}

theorem includesOf_eq {id : RepositoryId} {r : Repository} (h : g.repository? id = some r) :
    g.includesOf id = r.includes := by
  rw [includesOf, h, Option.elim_some]

theorem mem_boundOf {id target : RepositoryId} :
    target ∈ g.boundOf id ↔ ∃ dependency ∈ g.includesOf id, dependency.bound = some target := by
  rw [boundOf, List.mem_filterMap]

theorem lt_of_repository? {id : RepositoryId} {r : Repository} (h : g.repository? id = some r) :
    id.index < g.size :=
  (List.getElem?_eq_some_iff.mp h).1

theorem lt_of_mem_includesOf {id : RepositoryId} {dependency : Include}
    (h : dependency ∈ g.includesOf id) : id.index < g.size := by
  cases hid : g.repository? id with
  | none => simp [includesOf, hid] at h
  | some r => exact lt_of_repository? hid

theorem mem_ids {id : RepositoryId} : id ∈ g.ids ↔ id.index < g.size := by
  simp only [ids, List.mem_map, List.mem_range]
  constructor
  · rintro ⟨i, hi, rfl⟩
    exact hi
  · intro h
    exact ⟨id.index, h, rfl⟩

theorem nodup_ids : g.ids.Nodup :=
  List.nodup_range.map fun _ _ h => RepositoryId.mk.inj h

/-! ### One include -/

theorem repository?_putInclude (g : Graph) (id other : RepositoryId) (position : Nat)
    (dependency : Include) :
    (g.putInclude id position dependency).repository? other =
      if id = other then
        (g.repository? other).map fun r => { r with includes := r.includes.set position dependency }
      else g.repository? other := by
  rw [repository?, putInclude, List.getElem?_modify]
  by_cases h : id = other
  · subst h
    simp [repository?]
  · have hindex : id.index ≠ other.index := fun heq => h (by cases id; cases other; simp_all)
    simp [repository?, h, hindex]

theorem includesOf_putInclude (g : Graph) (id other : RepositoryId) (position : Nat)
    (dependency : Include) :
    (g.putInclude id position dependency).includesOf other =
      if id = other then (g.includesOf other).set position dependency else g.includesOf other := by
  rw [includesOf, repository?_putInclude]
  by_cases h : id = other
  · rw [if_pos h, if_pos h, includesOf]
    cases g.repository? other <;> simp
  · rw [if_neg h, if_neg h, includesOf]

@[simp] theorem includesOf_addEdge (g : Graph) (included includer id : RepositoryId) :
    (g.addEdge included includer).includesOf id = g.includesOf id := by
  unfold addEdge
  split <;> rfl

@[simp] theorem repositories_addEdge (g : Graph) (included includer : RepositoryId) :
    (g.addEdge included includer).repositories = g.repositories := by
  unfold addEdge
  split <;> rfl

@[simp] theorem positions_addEdge (g : Graph) (included includer : RepositoryId) :
    (g.addEdge included includer).positions = g.positions := by
  unfold addEdge
  split <;> rfl

@[simp] theorem buildOrder_addEdge (g : Graph) (included includer : RepositoryId) :
    (g.addEdge included includer).buildOrder = g.buildOrder := by
  unfold addEdge
  split <;> rfl

theorem mem_edges_addEdge {included includer a b : RepositoryId} :
    (a, b) ∈ (g.addEdge included includer).edges ↔
      (a, b) ∈ g.edges ∨ (a = included ∧ b = includer) := by
  unfold addEdge
  by_cases h : (included, includer) ∈ g.edges
  · rw [if_pos (by simpa using h)]
    constructor
    · exact Or.inl
    · rintro (hmem | ⟨rfl, rfl⟩)
      · exact hmem
      · exact h
  · rw [if_neg (by simpa using h), List.mem_cons, Prod.mk.injEq, or_comm]

theorem nodup_edges_addEdge {included includer : RepositoryId} (h : g.edges.Nodup) :
    (g.addEdge included includer).edges.Nodup := by
  unfold addEdge
  by_cases hmem : (included, includer) ∈ g.edges
  · rw [if_pos (by simpa using hmem)]
    exact h
  · rw [if_neg (by simpa using hmem)]
    exact List.nodup_cons.mpr ⟨hmem, h⟩

/-- One graph has come from another by binding includes and noting edges: what is bound stays as it
is. -/
structure Binds (g g' : Graph) : Prop where
  positions : g'.positions = g.positions
  buildOrder : g'.buildOrder = g.buildOrder
  unlinked : g'.repositories.map (·.unlinked) = g.repositories.map (·.unlinked)
  keeps : ∀ id (position : Nat) dependency, (g.includesOf id)[position]? = some dependency →
    dependency.bound.isSome → (g'.includesOf id)[position]? = some dependency

/-- The includes that are bound lead to the repositories with their keys, and the edges are the bound
includes, each once. -/
structure Bindings (g : Graph) : Prop where
  find? : ∀ id, ∀ dependency ∈ g.includesOf id, ∀ target, dependency.bound = some target →
    g.find? dependency.key = some target
  nodup : g.edges.Nodup
  mem_edges : ∀ a b, (a, b) ∈ g.edges ↔ a ∈ g.boundOf b

namespace Binds

theorem refl (g : Graph) : g.Binds g where
  positions := rfl
  buildOrder := rfl
  unlinked := rfl
  keeps _ _ _ h _ := h

theorem trans (h : g.Binds g') (h' : g'.Binds g'') : g.Binds g'' where
  positions := h'.positions.trans h.positions
  buildOrder := h'.buildOrder.trans h.buildOrder
  unlinked := h'.unlinked.trans h.unlinked
  keeps id position dependency hdependency hbound :=
    h'.keeps id position dependency (h.keeps id position dependency hdependency hbound) hbound

theorem find?_eq (h : g.Binds g') (key : NamespaceKey) : g'.find? key = g.find? key := by
  rw [find?, find?, h.positions]

theorem map_repository? (h : g.Binds g') (id : RepositoryId) :
    (g'.repository? id).map (·.unlinked) = (g.repository? id).map (·.unlinked) := by
  rw [repository?, repository?, ← List.getElem?_map, ← List.getElem?_map, h.unlinked]

theorem size_eq (h : g.Binds g') : g'.size = g.size := by
  simpa [size] using congrArg List.length h.unlinked

theorem map_includesOf (h : g.Binds g') (id : RepositoryId) :
    (g'.includesOf id).map (·.unlinked) = (g.includesOf id).map (·.unlinked) := by
  have hrepository := h.map_repository? id
  cases hid : g.repository? id with
  | none =>
      rw [hid, Option.map_none, Option.map_eq_none_iff] at hrepository
      rw [includesOf, includesOf, hid, hrepository]
  | some r =>
      rw [hid, Option.map_some, Option.map_eq_some_iff] at hrepository
      obtain ⟨r', hid', hr⟩ := hrepository
      rw [includesOf_eq hid, includesOf_eq hid']
      exact congrArg Repository.includes hr

theorem exists_mem_includesOf (h : g.Binds g') {id : RepositoryId} {dependency : Include}
    (hmem : dependency ∈ g'.includesOf id) :
    ∃ earlier ∈ g.includesOf id, earlier.key = dependency.key := by
  have hmap := List.mem_map_of_mem (f := (·.unlinked)) hmem
  rw [h.map_includesOf] at hmap
  obtain ⟨earlier, hearlier, heq⟩ := List.mem_map.mp hmap
  exact ⟨earlier, hearlier, by rw [← earlier.key_unlinked, heq, dependency.key_unlinked]⟩

/-- A repository that is linked already stays as it is. -/
theorem repository?_of_isLinked (h : g.Binds g') {id : RepositoryId} {r : Repository}
    (hr : g.repository? id = some r) (hlinked : r.isLinked) :
    g'.repository? id = some r := by
  have hmap := h.map_repository? id
  rw [hr, Option.map_some, Option.map_eq_some_iff] at hmap
  obtain ⟨r', hr', hunlinked⟩ := hmap
  have hcontent : r'.unlinked.content = r.unlinked.content := by rw [hunlinked]
  have hincludes : r'.includes = r.includes := by
    refine List.ext_getElem? fun position => ?_
    cases hposition : r.includes[position]? with
    | none =>
        have hlength : r'.unlinked.includes.length = r.unlinked.includes.length := by rw [hunlinked]
        simp only [Repository.unlinked, List.length_map] at hlength
        rw [List.getElem?_eq_none_iff] at hposition ⊢
        omega
    | some dependency =>
        have hbound := List.all_eq_true.mp hlinked dependency (List.mem_of_getElem? hposition)
        have hkept := h.keeps id position dependency (by rwa [includesOf_eq hr]) hbound
        rwa [includesOf_eq hr'] at hkept
  have heq : r' = r := by
    cases r
    cases r'
    exact Repository.mk.injEq .. ▸ ⟨hcontent, hincludes⟩
  rw [hr', heq]

end Binds

/-- Putting an include with the key and owner of the one that stands there, which is not bound or bound
alike. -/
theorem binds_putInclude {id target : RepositoryId} {position : Nat} {dependency : Include}
    (h : (g.includesOf id)[position]? = some dependency)
    (hbound : ∀ earlier, dependency.bound = some earlier → earlier = target) :
    g.Binds (g.putInclude id position { dependency with bound := some target }) where
  positions := rfl
  buildOrder := rfl
  unlinked := by
    refine List.ext_getElem? fun i => ?_
    rw [List.getElem?_map, List.getElem?_map]
    have hrepository := repository?_putInclude g id ⟨i⟩ position
      { dependency with bound := some target }
    simp only [repository?] at hrepository
    rw [hrepository]
    by_cases hid : id = ⟨i⟩
    · subst hid
      rw [if_pos rfl]
      cases hr : g.repositories[i]? with
      | none => rfl
      | some r =>
          rw [includesOf_eq hr] at h
          obtain ⟨hlt, hget⟩ := List.getElem?_eq_some_iff.mp h
          simp only [Option.map_some, Repository.unlinked, List.map_set]
          congr 2
          rw [← hget]
          apply List.ext_getElem?
          intro j
          rw [List.getElem?_set]
          by_cases hj : position = j
          · subst hj
            simp [hlt, Include.unlinked]
          · simp [hj]
    · rw [if_neg hid]
  keeps other j earlier hearlier hisSome := by
    rw [includesOf_putInclude]
    by_cases hid : id = other
    · subst hid
      rw [if_pos rfl, List.getElem?_set]
      by_cases hj : position = j
      · subst hj
        rw [h] at hearlier
        cases hearlier
        obtain ⟨bound, hbound'⟩ := Option.isSome_iff_exists.mp hisSome
        rw [if_pos rfl, if_pos (List.getElem?_eq_some_iff.mp h).1, ← hbound bound hbound', ← hbound']
      · rw [if_neg hj]
        exact hearlier
    · rw [if_neg hid]
      exact hearlier

/-- An include can be bound only where its key leads. -/
theorem Bindings.eq_of_bound (hbindings : g.Bindings) {id target : RepositoryId} {dependency : Include}
    (hmem : dependency ∈ g.includesOf id) (htarget : g.find? dependency.key = some target) :
    ∀ earlier, dependency.bound = some earlier → earlier = target := by
  intro earlier hearlier
  have hfound := hbindings.find? id dependency hmem earlier hearlier
  rw [htarget] at hfound
  exact (Option.some.inj hfound).symm

theorem mem_includesOf_putInclude {id other : RepositoryId} {position : Nat}
    {dependency current : Include}
    (h : current ∈ (g.putInclude id position dependency).includesOf other) :
    current ∈ g.includesOf other ∨ (id = other ∧ current = dependency) := by
  rw [includesOf_putInclude] at h
  by_cases hid : id = other
  · rw [if_pos hid] at h
    exact (List.mem_or_eq_of_mem_set h).imp_right fun heq => ⟨hid, heq⟩
  · rw [if_neg hid] at h
    exact Or.inl h

/-- The includes after binding one: it was bound before, or it is the one. -/
theorem mem_boundOf_putInclude {id target : RepositoryId} {position : Nat} {dependency : Include}
    (h : (g.includesOf id)[position]? = some dependency)
    (hbound : ∀ earlier, dependency.bound = some earlier → earlier = target) {a b : RepositoryId} :
    a ∈ (g.putInclude id position { dependency with bound := some target }).boundOf b ↔
      a ∈ g.boundOf b ∨ (a = target ∧ b = id) := by
  have hbinds := binds_putInclude h hbound
  constructor
  · intro ha
    obtain ⟨current, hcurrent, hcurrentBound⟩ := mem_boundOf.mp ha
    rcases mem_includesOf_putInclude hcurrent with hmem | ⟨rfl, rfl⟩
    · exact Or.inl (mem_boundOf.mpr ⟨current, hmem, hcurrentBound⟩)
    · exact Or.inr ⟨(Option.some.inj hcurrentBound).symm, rfl⟩
  · rintro (ha | ⟨rfl, rfl⟩)
    · obtain ⟨current, hcurrent, hcurrentBound⟩ := mem_boundOf.mp ha
      obtain ⟨i, hi⟩ := List.mem_iff_getElem?.mp hcurrent
      have hkept := hbinds.keeps b i current hi (by rw [hcurrentBound]; rfl)
      exact mem_boundOf.mpr ⟨current, List.mem_of_getElem? hkept, hcurrentBound⟩
    · refine mem_boundOf.mpr ⟨{ dependency with bound := some a }, ?_, rfl⟩
      rw [includesOf_putInclude, if_pos rfl]
      exact List.mem_set (List.getElem?_eq_some_iff.mp h).1 _

/-- Binding an include succeeds if its key is known; the include is bound then. -/
theorem exists_bindInclude (hbindings : g.Bindings) (id : RepositoryId) (position : Nat)
    (hknown : ∀ dependency ∈ g.includesOf id, (g.find? dependency.key).isSome) :
    ∃ g', g.bindInclude id position = (.ok (), g') ∧ g.Binds g' ∧ g'.Bindings ∧
      ∀ dependency, (g'.includesOf id)[position]? = some dependency → dependency.bound.isSome := by
  cases h : (g.includesOf id)[position]? with
  | none =>
      refine ⟨g, by rw [bindInclude, h], Binds.refl g, hbindings, ?_⟩
      intro dependency hdependency
      rw [h] at hdependency
      cases hdependency
  | some dependency =>
      have hmem := List.mem_of_getElem? h
      obtain ⟨target, htarget⟩ := Option.isSome_iff_exists.mp (hknown dependency hmem)
      have hbound := hbindings.eq_of_bound hmem htarget
      have hbinds := binds_putInclude h hbound
      have hok : g.bindInclude id position = (.ok (),
          (g.putInclude id position { dependency with bound := some target }).addEdge target id) := by
        simp only [bindInclude, h, htarget, Include.bind_eq_ok hbound]
      refine ⟨_, hok, ⟨?_, ?_, ?_, ?_⟩, ⟨?_, ?_, ?_⟩, ?_⟩
      · rw [positions_addEdge, hbinds.positions]
      · rw [buildOrder_addEdge, hbinds.buildOrder]
      · rw [repositories_addEdge, hbinds.unlinked]
      · intro other i earlier hearlier hisSome
        rw [includesOf_addEdge]
        exact hbinds.keeps other i earlier hearlier hisSome
      · intro other current hcurrent found hfound
        rw [includesOf_addEdge] at hcurrent
        rw [find?, positions_addEdge]
        rcases mem_includesOf_putInclude hcurrent with hcurrent | ⟨rfl, rfl⟩
        · exact hbindings.find? other current hcurrent found hfound
        · rw [← Option.some.inj hfound]
          exact htarget
      · exact nodup_edges_addEdge hbindings.nodup
      · intro a b
        rw [mem_edges_addEdge, boundOf, includesOf_addEdge, ← boundOf,
          mem_boundOf_putInclude h hbound, ← hbindings.mem_edges]
        rfl
      · intro current hcurrent
        rw [includesOf_addEdge, includesOf_putInclude, if_pos rfl,
          List.getElem?_set_self (List.getElem?_eq_some_iff.mp h).1] at hcurrent
        cases hcurrent
        rfl

/-! ### All includes -/

/-- Binding the includes at some places succeeds if their keys are known; all of them are bound
then. -/
theorem exists_bindAll (hbindings : g.Bindings) (places : List (RepositoryId × Nat))
    (hknown : ∀ id, ∀ dependency ∈ g.includesOf id, (g.find? dependency.key).isSome) :
    ∃ g', g.bindAll places = (.ok (), g') ∧ g.Binds g' ∧ g'.Bindings ∧
      ∀ place ∈ places, ∀ dependency, (g'.includesOf place.1)[place.2]? = some dependency →
        dependency.bound.isSome := by
  induction places generalizing g with
  | nil => exact ⟨g, rfl, Binds.refl g, hbindings, by simp⟩
  | cons place places ih =>
      obtain ⟨g', hok, hbinds, hbindings', hplace⟩ :=
        exists_bindInclude hbindings place.1 place.2 (hknown place.1)
      have hknown' : ∀ id, ∀ dependency ∈ g'.includesOf id, (g'.find? dependency.key).isSome := by
        intro id dependency hmem
        obtain ⟨earlier, hearlier, hkey⟩ := hbinds.exists_mem_includesOf hmem
        rw [hbinds.find?_eq, ← hkey]
        exact hknown id earlier hearlier
      obtain ⟨g'', hoks, hbinds', hbindings'', hplaces⟩ := ih hbindings' hknown'
      refine ⟨g'', ?_, hbinds.trans hbinds', hbindings'', ?_⟩
      · rw [bindAll, hok]
        exact hoks
      · intro other hother dependency hdependency
        rcases List.mem_cons.mp hother with rfl | hother
        · -- What is bound in the first step stays bound in the others.
          have hmap := congrArg (·[other.2]?) (hbinds'.map_includesOf other.1)
          simp only [List.getElem?_map, hdependency, Option.map_some] at hmap
          obtain ⟨earlier, hearlier, -⟩ := Option.map_eq_some_iff.mp hmap.symm
          have hisSome := hplace earlier hearlier
          have hkept := hbinds'.keeps other.1 other.2 earlier hearlier hisSome
          rw [hdependency] at hkept
          cases hkept
          exact hisSome
        · exact hplaces other hother dependency hdependency

theorem mem_includePlaces {ids : List RepositoryId} {id : RepositoryId} {position : Nat} :
    (id, position) ∈ g.includePlaces ids ↔ id ∈ ids ∧ position < (g.includesOf id).length := by
  simp only [includePlaces, List.mem_flatMap, List.mem_map, List.mem_range, Prod.mk.injEq]
  constructor
  · rintro ⟨other, hmem, i, hi, rfl, rfl⟩
    exact ⟨hmem, hi⟩
  · rintro ⟨hmem, hlt⟩
    exact ⟨id, hmem, position, hlt, rfl, rfl⟩

/-- The key map leads to the repositories with the keys. -/
def Indexed (g : Graph) : Prop :=
  ∀ key id, g.find? key = some id ↔ ∃ r, g.repository? id = some r ∧ r.key = key

theorem Binds.indexed (h : g.Binds g') (hindexed : g.Indexed) : g'.Indexed := by
  intro key id
  have hmap := congrArg (Option.map Repository.key) (h.map_repository? id)
  simp only [Option.map_map, Function.comp_def, Repository.key_unlinked] at hmap
  rw [h.find?_eq, hindexed, ← Option.map_eq_some_iff, ← Option.map_eq_some_iff, hmap]

/-- What the entries of a graph need to be ordered makes its keys known. -/
theorem isSome_find?_of_orderable (hindexed : g.Indexed)
    (h : Orderable (g.repositories.map (·.entry))) (id : RepositoryId) :
    ∀ dependency ∈ g.includesOf id, (g.find? dependency.key).isSome := by
  intro dependency hmem
  cases hid : g.repository? id with
  | none => simp [includesOf, hid] at hmem
  | some r =>
      rw [includesOf_eq hid] at hmem
      have hkey := h.known r.entry (List.mem_map_of_mem (List.mem_of_getElem? hid)) dependency.key
        (List.mem_map_of_mem hmem)
      simp only [List.map_map, List.mem_map, Function.comp_apply] at hkey
      obtain ⟨target, htarget, heq⟩ := hkey
      obtain ⟨i, hi⟩ := List.mem_iff_getElem?.mp htarget
      exact Option.isSome_iff_exists.mpr ⟨⟨i⟩, (hindexed _ _).mpr ⟨target, hi, heq⟩⟩

/-- Linking fails without a trace if the repositories have no order. Otherwise it binds all includes and
keeps the order. -/
theorem link_cases (hindexed : g.Indexed) (hbindings : g.Bindings) :
    (∃ fault, dependencyOrder (g.repositories.map (·.entry)) = .error fault ∧
      g.link = (.fail fault, g)) ∨
    ∃ order g', dependencyOrder (g.repositories.map (·.entry)) = .ok order ∧
      g.Binds g' ∧ g'.Bindings ∧
      (∀ id, ∀ dependency ∈ g'.includesOf id, dependency.bound.isSome) ∧
      g.link.1.outcome = .ok () ∧ g.link.2 = { g' with buildOrder := order.map (⟨·⟩) } := by
  cases horder : dependencyOrder (g.repositories.map (·.entry)) with
  | error fault => exact Or.inl ⟨fault, rfl, by rw [link, horder]⟩
  | ok order =>
      have hknown := isSome_find?_of_orderable hindexed (exists_dependencyOrder_iff.mp ⟨order, horder⟩)
      obtain ⟨g', hok, hbinds, hbindings', hplaces⟩ := exists_bindAll hbindings
        (g.includePlaces (order.map fun i => (⟨i⟩ : RepositoryId))) hknown
      refine Or.inr ⟨order, g', rfl, hbinds, hbindings', ?_, ?_, ?_⟩
      · intro id dependency hmem
        obtain ⟨position, hposition⟩ := List.mem_iff_getElem?.mp hmem
        refine hplaces (id, position) (mem_includePlaces.mpr ⟨?_, ?_⟩) dependency hposition
        · have hlt := lt_of_mem_includesOf hmem
          rw [hbinds.size_eq] at hlt
          refine List.mem_map.mpr ⟨id.index, ?_, rfl⟩
          rw [(perm_of_dependencyOrder horder).mem_iff, List.mem_range, List.length_map]
          exact hlt
        · have hlength := congrArg List.length (hbinds.map_includesOf id)
          rw [List.length_map, List.length_map] at hlength
          exact hlength ▸ (List.getElem?_eq_some_iff.mp hposition).1
      · rw [link, horder]
        simp only [hok, Logged.outcome_note]
      · rw [link, horder]
        simp only [hok]

end Graph

end Interop
