import Interop.Proofs.Signatures

/-! The names of parameters in native signatures. They are those of the declaration, and the one for errors
has a name of its own that a declared parameter may have as well. None is a reserved word. Main statement:
`native_names`. -/

namespace Interop

/-- No reserved word starts like an escaped one. -/
theorem head?_of_mem_reservedWords {word : String} (h : word ∈ reservedWords) : word.toList.head? ≠ some '@' := by
  have hwords : ∀ word ∈ reservedWords, word.toList.head? ≠ some '@' := by decide +kernel
  exact hwords word h

theorem escapeReserved_not_mem (name : String) : escapeReserved name ∉ reservedWords := by
  rw [escapeReserved]
  split
  · intro hmem
    refine head?_of_mem_reservedWords hmem ?_
    rw [String.toList_append]
    rfl
  · next hplain => rwa [List.contains_iff_mem] at hplain

theorem Parameter.Regular.not_mem_reservedWords {p : Parameter} (h : p.Regular) :
    p.name.managed ∉ reservedWords := by
  rw [h.name_eq]
  exact escapeReserved_not_mem _

/-- The names of the entries behind those of the parameters. -/
theorem Emitter.map_name_trailing (throws : Bool) :
    (trailing throws).map (·.name) = if throws then ["error"] else [] := by
  cases throws <;> rfl

/-- A native signature has the names of its parameters and, if errors are thrown, the one for them. -/
theorem Emitter.ShowsBy.names_native {e : Emitter} {D : TypeReference → DecidedType → Prop} {work : Work}
    {declaration : EmittedDeclaration} {list : ParameterList} {throws : Bool} (h : e.ShowsBy D work declaration)
    (hsignature : work.signature? = some (list, throws)) :
    ∃ native, declaration.native? = some native ∧
      native.map (·.name) = list.native.map (·.name.managed) ++ if throws then ["error"] else [] := by
  obtain ⟨shown, hnative, hentries⟩ := h.native hsignature
  refine ⟨_, hnative, ?_⟩
  rw [List.map_append, map_name_of_shownBy hentries, map_name_trailing, ← list.map_parameter_nativeUses,
    List.map_map]
  rfl

/-- Names followed by the one for errors are distinct if they are so themselves and that one is not among
them. -/
theorem nodup_append_error {names : List String} {throws : Bool} :
    (names ++ if throws then ["error"] else []).Nodup ↔
      names.Nodup ∧ (throws = true → ∀ name ∈ names, name ≠ "error") := by
  cases throws with
  | false => simp
  | true => simp [List.nodup_append]

/-- The names in the native signature of a function, method, constructor or callback are the managed names of
its parameters, the instance first, and `error` behind them if it throws. If the former are distinct, so are
all, unless errors are thrown and a parameter is named `error` itself. No name is a reserved word. -/
theorem native_names {g : Graph} (hg : Obtained g) {id : RepositoryId} {r : Repository}
    (hr : g.repository? id = some r) {m : Memo} {item : WorkItem} (hitem : item ∈ (Emitter.mk g id).items r.content)
    {declaration : EmittedDeclaration} (h : (Emitter.mk g id).emitFrom m item = .ok declaration)
    {list : ParameterList} {throws : Bool} (hsignature : item.work.signature? = some (list, throws)) :
    ∃ native, declaration.native? = some native ∧
      native.map (·.name) = list.native.map (·.name.managed) ++ (if throws then ["error"] else []) ∧
      ((native.map (·.name)).Nodup ↔ (list.native.map (·.name.managed)).Nodup ∧
        (throws = true → ∀ p ∈ list.native, p.name.managed ≠ "error")) ∧
      ∀ entry ∈ native, entry.name ∉ reservedWords := by
  have hshows := Emitter.showsBy_any (Emitter.content?_eq_some hr) hitem h
  obtain ⟨native, hnative, hnames⟩ := hshows.names_native hsignature
  have hregular := Emitter.regular_of_mem_items (hg.regular hr) hitem hsignature
  refine ⟨native, hnative, hnames, ?_, fun entry hentry => ?_⟩
  · rw [hnames, nodup_append_error, List.forall_mem_map]
  · have hname := List.mem_map_of_mem (f := (·.name)) hentry
    rw [hnames] at hname
    rcases List.mem_append.mp hname with hdeclared | herror
    · obtain ⟨p, hp, hpname⟩ := List.mem_map.mp hdeclared
      rw [← hpname]
      exact (hregular p hp).not_mem_reservedWords
    · split at herror
      · rw [List.mem_singleton.mp herror]
        decide
      · cases herror

open Sample in
theorem native_names_add : ∃ f, (Emitter.mk idle ⟨0⟩).emitFrom {} addItem = .ok (.function f) ∧
    f.nativeParameters.map (·.name) = ["data", "callback", "notify", "notifyData", "@object", "error"] := by
  obtain ⟨f, hf⟩ := exists_emitFrom_idle {} (.inl rfl) "Idle.add" (.callable .free .function 0) none
  have hitem : addItem ∈ (Emitter.mk idle ⟨0⟩).items idleRepository.content := by
    rw [items_idle]
    exact .head _
  obtain ⟨native, hnative, hnames, -⟩ := native_names obtained_idle repository?_idle hitem hf rfl
  cases hnative
  exact ⟨f, hf, hnames.trans (by decide +kernel)⟩

open Sample in
/-- A parameter of a function that throws may have the name of the one for errors. -/
theorem error_repeated : ∃ f, (Emitter.mk idle ⟨0⟩).emitFrom {} reportItem = .ok (.function f) ∧
    (report.parameters.native.map (·.name.managed)).Nodup ∧ ¬(f.nativeParameters.map (·.name)).Nodup := by
  obtain ⟨f, hf⟩ := exists_emitFrom_idle {} (.inr rfl) "Idle.report" (.callable .free .function 1) none
  have hitem : reportItem ∈ (Emitter.mk idle ⟨0⟩).items idleRepository.content := by
    rw [items_idle]
    exact .tail _ (.head _)
  have hshows := Emitter.showsBy_any (Emitter.content?_eq_some repository?_idle) hitem hf
  obtain ⟨native, hnative, hnames⟩ := hshows.names_native rfl
  cases hnative
  refine ⟨f, hf, by decide +kernel, ?_⟩
  rw [hnames]
  decide +kernel

end Interop
