import Mathlib.Data.List.Forall2

/-! Checked computations one after another. A sequence succeeds if each part does, and a traversal of
a list fails with the failure of the first item that has one. -/

namespace Interop

variable {ε α β : Type}

theorem bind_eq_ok {x : Except ε α} {next : α → Except ε β} {b : β} :
    x >>= next = .ok b ↔ ∃ a, x = .ok a ∧ next a = .ok b := by
  cases x with
  | error e => simp [bind, Except.bind]
  | ok a => simp [bind, Except.bind]

theorem bind_eq_error {x : Except ε α} {next : α → Except ε β} {e : ε} :
    x >>= next = .error e ↔ x = .error e ∨ ∃ a, x = .ok a ∧ next a = .error e := by
  cases x with
  | error e => simp [bind, Except.bind]
  | ok a => simp [bind, Except.bind]

theorem toOption_eq_of_iff {x y : Except ε α} (h : ∀ a, x = .ok a ↔ y = .ok a) :
    x.toOption = y.toOption := by
  cases x with
  | ok a => rw [(h a).mp rfl]
  | error e =>
      cases y with
      | ok a => cases (h a).mpr rfl
      | error e' => rfl

section State

variable {σ : Type}

/-- A computation with a state goes on from the state that its first part leaves, unless that fails. -/
theorem run_bind (x : ExceptT ε (StateM σ) α) (next : α → ExceptT ε (StateM σ) β) (s : σ) :
    (x >>= next).run.run s = match x.run.run s with
      | (.error e, s) => (.error e, s)
      | (.ok a, s) => (next a).run.run s := by
  simp only [StateT.run, ExceptT.run, Bind.bind, ExceptT.bind, ExceptT.mk, StateT.bind]
  rcases x s with ⟨_ | _, _⟩ <;> rfl

theorem run_bind_eq_ok {x : ExceptT ε (StateM σ) α} {next : α → ExceptT ε (StateM σ) β} {s left : σ} {b : β} :
    (x >>= next).run.run s = (.ok b, left) ↔
      ∃ a between, x.run.run s = (.ok a, between) ∧ (next a).run.run between = (.ok b, left) := by
  rw [run_bind]
  generalize x.run.run s = result
  obtain ⟨_ | a, between⟩ := result
  · exact iff_of_false nofun fun ⟨_, _, h, _⟩ => nomatch h
  · constructor
    · exact fun h => ⟨a, between, rfl, h⟩
    · rintro ⟨_, _, ⟨⟩, h⟩
      exact h

end State

section Pointwise

variable {R : α → β → Prop} {left : List α} {right : List β}

theorem exists_getElem?_left (h : List.Forall₂ R left right) {i : Nat} {b : β}
    (hb : right[i]? = some b) : ∃ a, left[i]? = some a ∧ R a b := by
  induction h generalizing i with
  | nil => simp at hb
  | @cons a c left right hac _ ih =>
      cases i with
      | zero =>
          rw [List.getElem?_cons_zero, Option.some.injEq] at hb
          exact ⟨a, rfl, hb ▸ hac⟩
      | succ i => exact ih hb

theorem exists_getElem?_right (h : List.Forall₂ R left right) {i : Nat} {a : α}
    (ha : left[i]? = some a) : ∃ b, right[i]? = some b ∧ R a b :=
  exists_getElem?_left h.flip ha

theorem exists_mem_left (h : List.Forall₂ R left right) {b : β} (hb : b ∈ right) :
    ∃ a ∈ left, R a b := by
  obtain ⟨i, hi⟩ := List.getElem?_of_mem hb
  obtain ⟨a, ha, hab⟩ := exists_getElem?_left h hi
  exact ⟨a, List.mem_of_getElem? ha, hab⟩

theorem exists_mem_right (h : List.Forall₂ R left right) {a : α} (ha : a ∈ left) :
    ∃ b ∈ right, R a b :=
  exists_mem_left h.flip ha

variable {P : α → Prop} {Q : β → Prop}

theorem forall_mem_congr (h : List.Forall₂ R left right) (hR : ∀ a b, R a b → (P a ↔ Q b)) :
    (∀ a ∈ left, P a) ↔ ∀ b ∈ right, Q b := by
  induction h with
  | nil => exact iff_of_true (fun _ h => nomatch h) fun _ h => nomatch h
  | cons hab _ ih => rw [List.forall_mem_cons, List.forall_mem_cons, hR _ _ hab, ih]

theorem exists_mem_congr (h : List.Forall₂ R left right) (hR : ∀ a b, R a b → (P a ↔ Q b)) :
    (∃ a ∈ left, P a) ↔ ∃ b ∈ right, Q b := by
  constructor
  · rintro ⟨a, ha, hP⟩
    obtain ⟨b, hb, hab⟩ := exists_mem_right h ha
    exact ⟨b, hb, (hR a b hab).mp hP⟩
  · rintro ⟨b, hb, hQ⟩
    obtain ⟨a, ha, hab⟩ := exists_mem_left h hb
    exact ⟨a, ha, (hR a b hab).mpr hQ⟩

end Pointwise

section Traversal

variable {f : α → Except ε β} {items : List α}

theorem mapM_eq_ok {results : List β} :
    items.mapM f = .ok results ↔ List.Forall₂ (fun a b => f a = .ok b) items results := by
  induction items generalizing results with
  | nil => cases results <;> simp [pure, Except.pure]
  | cons a items ih =>
      rw [List.mapM_cons, bind_eq_ok]
      constructor
      · rintro ⟨b, hb, h⟩
        obtain ⟨rest, hrest, h⟩ := bind_eq_ok.mp h
        cases h
        exact .cons hb (ih.mp hrest)
      · intro h
        cases h with
        | cons hb hrest => exact ⟨_, hb, bind_eq_ok.mpr ⟨_, ih.mpr hrest, rfl⟩⟩

theorem exists_mapM_eq_ok : (∃ results, items.mapM f = .ok results) ↔ ∀ a ∈ items, ∃ b, f a = .ok b := by
  induction items with
  | nil => simp [pure, Except.pure]
  | cons a items ih =>
      rw [List.forall_mem_cons, ← ih]
      constructor
      · rintro ⟨results, h⟩
        cases mapM_eq_ok.mp h with
        | cons hb hrest => exact ⟨⟨_, hb⟩, _, mapM_eq_ok.mpr hrest⟩
      · rintro ⟨⟨b, hb⟩, rest, hrest⟩
        exact ⟨b :: rest, mapM_eq_ok.mpr (.cons hb (mapM_eq_ok.mp hrest))⟩

/-- What holds of whatever an item gives holds of all results. -/
theorem forall_mem_of_mapM {P : β → Prop} (hf : ∀ a b, f a = .ok b → P b) {results : List β}
    (h : items.mapM f = .ok results) : ∀ b ∈ results, P b := by
  intro b hb
  obtain ⟨a, -, ha⟩ := exists_mem_left (mapM_eq_ok.mp h) hb
  exact hf a b ha

/-- What each item keeps holds at the end. -/
theorem foldlM_induction {P : β → Prop} {step : β → α → Except ε β}
    (hstep : ∀ a ∈ items, ∀ b next, P b → step b a = .ok next → P next) {first last : β} (hfirst : P first)
    (h : items.foldlM step first = .ok last) : P last := by
  induction items generalizing first with
  | nil =>
      cases h
      exact hfirst
  | cons a items ih =>
      rw [List.foldlM_cons] at h
      obtain ⟨next, hnext, h⟩ := bind_eq_ok.mp h
      obtain ⟨ha, hitems⟩ := List.forall_mem_cons.mp hstep
      exact ih hitems (ha first next hfirst hnext) h

/-- A traversal with a condition on the items and a function for the results. -/
theorem mapM_eq_ok_iff {P : α → Prop} {g : α → β} (hf : ∀ a b, f a = .ok b ↔ P a ∧ b = g a)
    {results : List β} :
    items.mapM f = .ok results ↔ (∀ a ∈ items, P a) ∧ results = items.map g := by
  rw [mapM_eq_ok]
  induction items generalizing results with
  | nil => simp
  | cons a items ih =>
      rw [List.forall₂_cons_left_iff, List.forall_mem_cons, List.map_cons]
      constructor
      · rintro ⟨b, rest, hb, hrest, rfl⟩
        obtain ⟨ha, rfl⟩ := (hf a b).mp hb
        obtain ⟨hitems, rfl⟩ := ih.mp hrest
        exact ⟨⟨ha, hitems⟩, rfl⟩
      · rintro ⟨⟨ha, hitems⟩, rfl⟩
        exact ⟨g a, items.map g, (hf a (g a)).mpr ⟨ha, rfl⟩, ih.mpr ⟨hitems, rfl⟩, rfl⟩

/-- The first item that fails decides. -/
theorem mapM_eq_error {e : ε} :
    items.mapM f = .error e ↔ ∃ before a after, items = before ++ a :: after ∧
      (∀ b ∈ before, ∃ c, f b = .ok c) ∧ f a = .error e := by
  induction items with
  | nil => simp [pure, Except.pure]
  | cons first items ih =>
      rw [List.mapM_cons, bind_eq_error]
      constructor
      · rintro (h | ⟨b, hb, h⟩)
        · exact ⟨[], first, items, rfl, by simp, h⟩
        · obtain h | ⟨rest, -, h⟩ := bind_eq_error.mp h
          · obtain ⟨before, a, after, rfl, hbefore, ha⟩ := ih.mp h
            exact ⟨first :: before, a, after, rfl, by simpa using ⟨⟨b, hb⟩, hbefore⟩, ha⟩
          · cases h
      · rintro ⟨before, a, after, heq, hbefore, ha⟩
        cases before with
        | nil =>
            obtain ⟨rfl, rfl⟩ := List.cons.inj heq
            exact Or.inl ha
        | cons b before =>
            obtain ⟨rfl, rfl⟩ := List.cons.inj heq
            obtain ⟨c, hc⟩ := hbefore first (by simp)
            refine Or.inr ⟨c, hc, bind_eq_error.mpr (Or.inl (ih.mpr ?_))⟩
            exact ⟨before, a, after, rfl, fun b hb => hbefore b (List.mem_cons_of_mem _ hb), ha⟩

end Traversal

end Interop
