import Interop.Proofs.Linking

/-! Registering repositories. A description gives a repository with its own key and with the keys of its
includes, none of them bound; a graph takes it behind the others unless its key is known. -/

namespace Interop

/-! ### Repositories from descriptions -/

namespace Namespace

/-- Placing a record changes only the records, the classes and interfaces, and the slots. -/
theorem apply_place {α : Type} (f : Namespace → α)
    (hf : ∀ ns records classes interfaces layoutSlots,
      f { ns with records, classes, interfaces, layoutSlots } = f ns)
    {ns placed : Namespace} {record : Record} (h : ns.place record = .ok placed) :
    f placed = f ns := by
  rw [place] at h
  split at h
  · cases h
    exact hf ns _ ns.classes ns.interfaces ns.layoutSlots
  · obtain ⟨⟨owner, ownerName⟩, -, h⟩ := bind_eq_ok.mp h
    cases h
    unfold attach
    cases owner <;> dsimp only <;> split <;> exact hf ns ns.records _ _ _

theorem apply_foldlM_place {α : Type} (f : Namespace → α)
    (hf : ∀ ns records classes interfaces layoutSlots,
      f { ns with records, classes, interfaces, layoutSlots } = f ns)
    {ns placed : Namespace} {records : List Record} (h : records.foldlM place ns = .ok placed) :
    f placed = f ns := by
  have hstep : ∀ record ∈ records, ∀ current next : Namespace, f current = f ns →
      current.place record = .ok next → f next = f ns :=
    fun record _ current next heq h => (apply_place f hf h).trans heq
  exact foldlM_induction hstep rfl h

/-- A description does not change the key that its namespace is given. -/
theorem key_ofDescription {key : NamespaceKey} {d : Description.Namespace} {ns : Namespace}
    (h : (Namespace.ofDescription key d).outcome = .ok ns) : ns.key = key := by
  simp only [Namespace.ofDescription, Logged.outcome_bind, Logged.outcome_ofExcept, bind_eq_ok,
    Logged.outcome_note, Logged.outcome_pure] at h
  obtain ⟨aliases, -, callbacks, -, enumerations, -, bitfields, -, interfaces, -, records, -,
    classes, -, unions, -, functions, -, constants, -, attached, hattached, -, -, h⟩ := h
  cases h
  exact apply_foldlM_place Namespace.key (fun _ _ _ _ _ => rfl) hattached

/-- The aliases of a namespace are those of its description, one by one. -/
theorem aliases_ofDescription {key : NamespaceKey} {d : Description.Namespace} {ns : Namespace}
    (h : (Namespace.ofDescription key d).outcome = .ok ns) :
    d.aliases.mapM (Alias.ofDescription key) = .ok ns.aliases := by
  simp only [Namespace.ofDescription, Logged.outcome_bind, Logged.outcome_ofExcept, bind_eq_ok,
    Logged.outcome_note, Logged.outcome_pure] at h
  obtain ⟨aliases, haliases, callbacks, -, enumerations, -, bitfields, -, interfaces, -, records, -,
    classes, -, unions, -, functions, -, constants, -, attached, hattached, -, -, h⟩ := h
  cases h
  rw [haliases, apply_foldlM_place Namespace.aliases (fun _ _ _ _ _ => rfl) hattached]

end Namespace

namespace Repository

theorem ofDescription_eq_ok {d : Description} {r : Repository} :
    (ofDescription d).outcome = .ok r ↔ ∃ entry content, entryOfDescription d = .ok entry ∧
      (Namespace.ofDescription entry.key d.namespaceInfo).outcome = .ok content ∧
      r = ⟨content, entry.includes.map (⟨·, entry.key.canonicalName, none⟩)⟩ := by
  simp only [ofDescription, Logged.outcome_bind, Logged.outcome_ofExcept, Logged.outcome_pure,
    bind_eq_ok]
  constructor
  · rintro ⟨entry, hentry, content, hcontent, h⟩
    cases h
    exact ⟨entry, content, hentry, hcontent, rfl⟩
  · rintro ⟨entry, content, hentry, hcontent, rfl⟩
    exact ⟨entry, hentry, content, hcontent, rfl⟩

variable {d : Description} {r : Repository} (h : (ofDescription d).outcome = .ok r)

include h

/-- A repository has the keys that its description gives. -/
theorem entry_of_ofDescription : entryOfDescription d = .ok r.entry := by
  obtain ⟨entry, content, hentry, hcontent, rfl⟩ := ofDescription_eq_ok.mp h
  rw [hentry, Repository.entry, key, Namespace.key_ofDescription hcontent]
  simp only [List.map_map, Function.comp_def, List.map_id']

theorem bound_of_ofDescription : ∀ dependency ∈ r.includes, dependency.bound = none := by
  obtain ⟨entry, content, -, -, rfl⟩ := ofDescription_eq_ok.mp h
  simp

theorem owner_of_ofDescription : ∀ dependency ∈ r.includes, dependency.owner = r.key.canonicalName := by
  obtain ⟨entry, content, -, hcontent, rfl⟩ := ofDescription_eq_ok.mp h
  simp [key, Namespace.key_ofDescription hcontent]

theorem unlinked_of_ofDescription : r.unlinked = r := by
  obtain ⟨entry, content, -, -, rfl⟩ := ofDescription_eq_ok.mp h
  simp [unlinked, Include.unlinked]

end Repository

/-! ### Repositories in a graph -/

namespace Graph

variable {g : Graph} {r : Repository}

theorem register_of_isSome (h : (g.find? r.key).isSome) :
    g.register r = (.error (.duplicateNamespace r.key.canonicalName), g) := by
  rw [register, if_pos h]

/-- The graph with a repository behind the others. -/
def extend (g : Graph) (r : Repository) : Graph :=
  { g with
    repositories := g.repositories ++ [r],
    positions := (r.key, ⟨g.size⟩) :: g.positions }

theorem register_of_eq_none (h : g.find? r.key = none) :
    g.register r = (.ok ⟨g.size⟩, g.extend r) := by
  rw [register, if_neg (by simp [h]), extend]

theorem size_extend (g : Graph) (r : Repository) : (g.extend r).size = g.size + 1 := by
  simp [size, extend]

theorem find?_extend (g : Graph) (r : Repository) (key : NamespaceKey) :
    (g.extend r).find? key = if key = r.key then some ⟨g.size⟩ else g.find? key := by
  rw [find?, extend, List.lookup_cons]
  by_cases h : key = r.key
  · simp [h]
  · rw [if_neg h, beq_false_of_ne h, find?]

theorem repository?_extend (g : Graph) (r : Repository) (id : RepositoryId) :
    (g.extend r).repository? id = if id.index = g.size then some r else g.repository? id := by
  rw [repository?, repository?, extend, size]
  by_cases h : id.index = g.repositories.length
  · rw [if_pos h, h]
    simp
  · rw [if_neg h]
    by_cases hlt : id.index < g.repositories.length
    · rw [List.getElem?_append_left hlt]
    · rw [List.getElem?_eq_none (by simp; omega), List.getElem?_eq_none (by omega)]

theorem includesOf_extend (g : Graph) (r : Repository) (id : RepositoryId) :
    (g.extend r).includesOf id = if id.index = g.size then r.includes else g.includesOf id := by
  rw [includesOf, repository?_extend]
  by_cases h : id.index = g.size
  · rw [if_pos h, if_pos h, Option.elim_some]
  · rw [if_neg h, if_neg h, includesOf]

theorem Indexed.extend (h : g.Indexed) (hkey : g.find? r.key = none) : (g.extend r).Indexed := by
  intro key id
  rw [find?_extend, repository?_extend]
  by_cases heq : key = r.key
  · subst heq
    rw [if_pos rfl]
    by_cases hid : id.index = g.size
    · rw [if_pos hid]
      constructor
      · intro _
        exact ⟨r, rfl, rfl⟩
      · intro _
        rw [← hid]
    · rw [if_neg hid, ← h, hkey]
      constructor
      · intro hsome
        exact absurd (congrArg RepositoryId.index (Option.some.inj hsome)).symm hid
      · intro hnone
        cases hnone
  · rw [if_neg heq, h]
    by_cases hid : id.index = g.size
    · rw [if_pos hid]
      constructor
      · rintro ⟨other, hother, -⟩
        exact absurd (lt_of_repository? hother) (by omega)
      · rintro ⟨other, hother, hkey'⟩
        cases hother
        exact absurd hkey'.symm heq
    · rw [if_neg hid]

/-- The keys of a graph are distinct. -/
theorem Indexed.nodup (h : g.Indexed) : (g.repositories.map (·.key)).Nodup := by
  rw [List.nodup_iff_getElem?_ne_getElem?]
  intro i j hij hj heq
  rw [List.length_map] at hj
  rw [List.getElem?_map, List.getElem?_map, List.getElem?_eq_getElem (hij.trans hj),
    List.getElem?_eq_getElem hj, Option.map_some, Option.map_some, Option.some.injEq] at heq
  have hfirst := (h g.repositories[j].key ⟨i⟩).mpr ⟨_, List.getElem?_eq_getElem (hij.trans hj), heq⟩
  have hsecond := (h g.repositories[j].key ⟨j⟩).mpr ⟨_, List.getElem?_eq_getElem hj, rfl⟩
  rw [hfirst] at hsecond
  exact hij.ne (congrArg RepositoryId.index (Option.some.inj hsecond))

end Graph

end Interop
