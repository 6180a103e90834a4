import Interop.Proofs.StackSearch
import Mathlib.Data.String.Basic

/-! The order of include entries. Entries can be ordered exactly if their keys are distinct, the
included keys are known and no key includes itself, directly or not. Main statement:
`dependencyOrder_topological`. -/

namespace Interop

open Relation DependencyOrder

/-- One key includes another according to some entries. -/
def Includes (entries : List IncludeEntry) (a b : NamespaceKey) : Prop :=
  ∃ entry ∈ entries, entry.key = a ∧ b ∈ entry.includes

/-- Entries that have an order: distinct keys, of which no unknown one is included, and no cycle. -/
structure Orderable (entries : List IncludeEntry) : Prop where
  distinct : (entries.map (·.key)).Nodup
  known : ∀ entry ∈ entries, ∀ key ∈ entry.includes, key ∈ entries.map (·.key)
  acyclic : ∀ key, ¬TransGen (Includes entries) key key

/-- The names of all that a key on a cycle includes and is included by, in ascending order. -/
structure NamesCycle (entries : List IncludeEntry) (names : List String) : Prop where
  sorted : names.Pairwise (· ≤ ·)
  component : ∃ key, TransGen (Includes entries) key key ∧
    ∃ members : List NamespaceKey, members.Nodup ∧
      (∀ member, member ∈ members ↔
        TransGen (Includes entries) key member ∧ TransGen (Includes entries) member key) ∧
      names.Perm (members.map (·.canonicalName))

/-- Why some entries have no order. A repeated key goes before an unknown one and this before a cycle, and
of several repeated or unknown keys the first one is named. -/
inductive OrderFault (entries : List IncludeEntry) : Fault → Prop
  | duplicate (before : List IncludeEntry) (entry : IncludeEntry) (after : List IncludeEntry)
    (hentries : entries = before ++ entry :: after) (hbefore : (before.map (·.key)).Nodup)
    (hrepeated : entry.key ∈ before.map (·.key)) :
    OrderFault entries (.duplicateNamespace entry.key.canonicalName)
  | unresolved (before : List IncludeEntry) (entry : IncludeEntry) (after : List IncludeEntry)
    (earlier : List NamespaceKey) (key : NamespaceKey) (later : List NamespaceKey)
    (hdistinct : (entries.map (·.key)).Nodup) (hentries : entries = before ++ entry :: after)
    (hincludes : entry.includes = earlier ++ key :: later)
    (hbefore : ∀ other ∈ before, ∀ known ∈ other.includes, known ∈ entries.map (·.key))
    (hearlier : ∀ known ∈ earlier, known ∈ entries.map (·.key))
    (hunknown : key ∉ entries.map (·.key)) :
    OrderFault entries (.unresolvedDependency key.canonicalName entry.key.canonicalName)
  | cycle (names : List String) (hdistinct : (entries.map (·.key)).Nodup)
    (hknown : ∀ entry ∈ entries, ∀ key ∈ entry.includes, key ∈ entries.map (·.key))
    (hnames : NamesCycle entries names) : OrderFault entries (.dependencyCycle names)

/-- The order in which the entries stand does not matter. -/
theorem Orderable.perm {entries others : List IncludeEntry} (hperm : entries.Perm others)
    (h : Orderable entries) : Orderable others where
  distinct := (hperm.map (·.key)).nodup_iff.mp h.distinct
  known entry hentry key hkey :=
    (hperm.map (·.key)).mem_iff.mp (h.known entry (hperm.mem_iff.mpr hentry) key hkey)
  acyclic key hkey := by
    refine h.acyclic key (hkey.lift id ?_)
    intro a b
    rintro ⟨entry, hentry, rfl, hb⟩
    exact ⟨entry, hperm.mem_iff.mpr hentry, rfl, hb⟩

namespace DependencyOrder

theorem firstRepeated?_eq_none {seen keys : List NamespaceKey} :
    firstRepeated? seen keys = none ↔ keys.Nodup ∧ ∀ key ∈ keys, key ∉ seen := by
  induction keys generalizing seen with
  | nil => simp [firstRepeated?]
  | cons first keys ih =>
      rw [firstRepeated?]
      by_cases hfirst : first ∈ seen
      · simp [hfirst]
      · rw [if_neg (by simpa using hfirst), ih, List.nodup_cons, List.forall_mem_cons]
        simp only [List.mem_cons, not_or]
        constructor
        · rintro ⟨hnodup, hkeys⟩
          exact ⟨⟨fun hmem => (hkeys first hmem).1 rfl, hnodup⟩, hfirst, fun key hkey => (hkeys key hkey).2⟩
        · rintro ⟨⟨hnot, hnodup⟩, -, hkeys⟩
          exact ⟨hnodup, fun key hkey => ⟨fun heq => hnot (heq ▸ hkey), hkeys key hkey⟩⟩

variable {entries : List IncludeEntry} {relation : List (List Nat)}

theorem firstRepeated?_nil_eq_none :
    firstRepeated? [] (entries.map (·.key)) = none ↔ (entries.map (·.key)).Nodup := by
  rw [firstRepeated?_eq_none]
  simp

theorem findIdx?_key_eq_none {key : NamespaceKey} :
    entries.findIdx? (·.key == key) = none ↔ key ∉ entries.map (·.key) := by
  simp [List.findIdx?_eq_none_iff]

theorem exists_of_findIdx?_key {key : NamespaceKey} {j : Nat}
    (h : entries.findIdx? (·.key == key) = some j) : ∃ b, entries[j]? = some b ∧ b.key = key := by
  obtain ⟨hj, hkey, -⟩ := List.findIdx?_eq_some_iff_getElem.mp h
  exact ⟨entries[j], List.getElem?_eq_getElem hj, by simpa using hkey⟩

/-- Entries with one key stand at one position. -/
theorem eq_of_key_eq (hdistinct : (entries.map (·.key)).Nodup) {i j : Nat} {a b : IncludeEntry}
    (hi : entries[i]? = some a) (hj : entries[j]? = some b) (hkey : a.key = b.key) : i = j := by
  have hlt : i < (entries.map (·.key)).length := by
    rw [List.length_map]
    exact (List.getElem?_eq_some_iff.mp hi).1
  refine (List.getElem?_inj hlt hdistinct).mp ?_
  rw [List.getElem?_map, List.getElem?_map, hi, hj, Option.map_some, Option.map_some, hkey]

theorem position_eq_ok {includer key : NamespaceKey} {i : Nat} :
    position entries includer key = .ok i ↔ entries.findIdx? (·.key == key) = some i := by
  rw [position]
  cases entries.findIdx? (·.key == key) <;> simp

theorem position_eq_error {includer key : NamespaceKey} {fault : Fault} :
    position entries includer key = .error fault ↔ key ∉ entries.map (·.key) ∧
      fault = .unresolvedDependency key.canonicalName includer.canonicalName := by
  rw [position, ← findIdx?_key_eq_none]
  cases entries.findIdx? (·.key == key) <;> simp [eq_comm]

theorem exists_position_iff {includer key : NamespaceKey} :
    (∃ i, position entries includer key = .ok i) ↔ key ∈ entries.map (·.key) := by
  simp only [position_eq_ok, ← Option.isSome_iff_exists]
  rw [← not_iff_not, Bool.not_eq_true, Option.isSome_eq_false_iff, Option.isNone_iff_eq_none]
  exact findIdx?_key_eq_none

/-- All positions are found exactly if all included keys are known. -/
theorem exists_positions_iff : (∃ relation, positions entries = .ok relation) ↔
    ∀ entry ∈ entries, ∀ key ∈ entry.includes, key ∈ entries.map (·.key) := by
  rw [positions, exists_mapM_eq_ok]
  refine forall₂_congr fun entry _ => ?_
  rw [exists_mapM_eq_ok]
  exact forall₂_congr fun key _ => exists_position_iff

theorem positions_eq_ok (h : positions entries = .ok relation) :
    List.Forall₂ (fun entry included => List.Forall₂
      (fun key j => entries.findIdx? (·.key == key) = some j) entry.includes included)
      entries relation := by
  refine (mapM_eq_ok.mp h).imp fun entry included hincluded => ?_
  exact (mapM_eq_ok.mp hincluded).imp fun key j => position_eq_ok.mp

/-- The positions included by an entry are those of the keys that it includes. -/
theorem step_iff_exists (h : positions entries = .ok relation) {i j : Nat} :
    Step relation i j ↔ ∃ a, entries[i]? = some a ∧
      ∃ key ∈ a.includes, entries.findIdx? (·.key == key) = some j := by
  have hpositions := positions_eq_ok h
  rw [Step, includedBy]
  constructor
  · intro hmem
    cases hi : relation[i]? with
    | none => simp [hi] at hmem
    | some included =>
        rw [hi, Option.getD_some] at hmem
        obtain ⟨a, ha, hincluded⟩ := exists_getElem?_left hpositions hi
        exact ⟨a, ha, exists_mem_left hincluded hmem⟩
  · rintro ⟨a, ha, key, hkey, hj⟩
    obtain ⟨included, hi, hincluded⟩ := exists_getElem?_right hpositions ha
    obtain ⟨j', hmem, hj'⟩ := exists_mem_right hincluded hkey
    rw [hj] at hj'
    cases hj'
    rwa [hi, Option.getD_some]

theorem inRange_of_positions (h : positions entries = .ok relation) : InRange relation := by
  intro i j hstep
  obtain ⟨a, -, key, -, hj⟩ := (step_iff_exists h).mp hstep
  obtain ⟨b, hb, -⟩ := exists_of_findIdx?_key hj
  rw [← (positions_eq_ok h).length_eq]
  exact (List.getElem?_eq_some_iff.mp hb).1

theorem step_iff (hdistinct : (entries.map (·.key)).Nodup) (h : positions entries = .ok relation)
    {i j : Nat} {a b : IncludeEntry} (hi : entries[i]? = some a) (hj : entries[j]? = some b) :
    Step relation i j ↔ b.key ∈ a.includes := by
  rw [step_iff_exists h]
  constructor
  · rintro ⟨a', hi', key, hkey, hfound⟩
    obtain ⟨b', hj', rfl⟩ := exists_of_findIdx?_key hfound
    rw [hi] at hi'
    rw [hj] at hj'
    cases hi'
    cases hj'
    exact hkey
  · intro hmem
    refine ⟨a, hi, b.key, hmem, ?_⟩
    cases hfound : entries.findIdx? (·.key == b.key) with
    | none => exact absurd (List.mem_map_of_mem (List.mem_of_getElem? hj)) (findIdx?_key_eq_none.mp hfound)
    | some k =>
        obtain ⟨b', hk, hkey⟩ := exists_of_findIdx?_key hfound
        rw [eq_of_key_eq hdistinct hk hj hkey]

/-- A key that includes something has an entry. -/
theorem exists_entry_of_transGen {x y : NamespaceKey} (hpath : TransGen (Includes entries) x y) :
    ∃ (i : Nat) (a : IncludeEntry), entries[i]? = some a ∧ a.key = x := by
  obtain ⟨_, ⟨a, ha, hkey, -⟩, -⟩ := TransGen.head'_iff.mp hpath
  obtain ⟨i, hi⟩ := List.getElem?_of_mem ha
  exact ⟨i, a, hi, hkey⟩

/-- Paths between positions are paths between the keys that stand there. -/
theorem transGen_includes_of_step (h : positions entries = .ok relation) {i j : Nat}
    (hpath : TransGen (Step relation) i j) :
    ∃ a b, entries[i]? = some a ∧ entries[j]? = some b ∧
      TransGen (Includes entries) a.key b.key := by
  have hstep : ∀ {i j}, Step relation i j → ∃ a b, entries[i]? = some a ∧
      entries[j]? = some b ∧ Includes entries a.key b.key := by
    intro i j hstep
    obtain ⟨a, hi, key, hkey, hj⟩ := (step_iff_exists h).mp hstep
    obtain ⟨b, hb, rfl⟩ := exists_of_findIdx?_key hj
    exact ⟨a, b, hi, hb, a, List.mem_of_getElem? hi, rfl, hkey⟩
  induction hpath with
  | single hedge =>
      obtain ⟨a, b, hi, hj, hincludes⟩ := hstep hedge
      exact ⟨a, b, hi, hj, .single hincludes⟩
  | tail _ hedge ih =>
      obtain ⟨a, b, hi, hj, hpath⟩ := ih
      obtain ⟨b', c, hj', hk, hincludes⟩ := hstep hedge
      rw [hj] at hj'
      cases hj'
      exact ⟨a, c, hi, hk, hpath.tail hincludes⟩

section Paths

variable (hdistinct : (entries.map (·.key)).Nodup) (h : positions entries = .ok relation)

include hdistinct h

theorem exists_step_of_includes {i : Nat} {a : IncludeEntry} {key : NamespaceKey}
    (hi : entries[i]? = some a) (hincludes : Includes entries a.key key) :
    ∃ j b, entries[j]? = some b ∧ b.key = key ∧ Step relation i j := by
  obtain ⟨entry, hentry, hkey, hmem⟩ := hincludes
  obtain ⟨i', hi'⟩ := List.getElem?_of_mem hentry
  obtain rfl := eq_of_key_eq hdistinct hi' hi hkey
  rw [hi] at hi'
  cases hi'
  obtain ⟨b, hb, rfl⟩ := List.mem_map.mp (exists_positions_iff.mp ⟨relation, h⟩ a hentry key hmem)
  obtain ⟨j, hj⟩ := List.getElem?_of_mem hb
  exact ⟨j, b, hj, rfl, (step_iff hdistinct h hi hj).mpr hmem⟩

/-- Paths between keys are paths between their positions. -/
theorem exists_transGen_step {x y : NamespaceKey} (hpath : TransGen (Includes entries) x y) {i : Nat}
    {a : IncludeEntry} (hi : entries[i]? = some a) (ha : a.key = x) :
    ∃ j b, entries[j]? = some b ∧ b.key = y ∧ TransGen (Step relation) i j := by
  subst ha
  induction hpath with
  | single hincludes =>
      obtain ⟨j, b, hj, hb, hstep⟩ := exists_step_of_includes hdistinct h hi hincludes
      exact ⟨j, b, hj, hb, .single hstep⟩
  | tail _ hincludes ih =>
      obtain ⟨j, b, hj, rfl, hpath⟩ := ih
      obtain ⟨k, c, hk, hc, hstep⟩ := exists_step_of_includes hdistinct h hj hincludes
      exact ⟨k, c, hk, hc, hpath.tail hstep⟩

theorem transGen_step_iff {i j : Nat} {a b : IncludeEntry} (hi : entries[i]? = some a)
    (hj : entries[j]? = some b) :
    TransGen (Step relation) i j ↔ TransGen (Includes entries) a.key b.key := by
  constructor
  · intro hpath
    obtain ⟨a', b', hi', hj', hincludes⟩ := transGen_includes_of_step h hpath
    rw [hi] at hi'
    rw [hj] at hj'
    cases hi'
    cases hj'
    exact hincludes
  · intro hpath
    obtain ⟨k, c, hk, hc, hstep⟩ := exists_transGen_step hdistinct h hpath hi rfl
    rwa [eq_of_key_eq hdistinct hj hk hc.symm]

/-- Positions have no cycle exactly if keys have none. -/
theorem acyclic_iff :
    (∀ i, ¬TransGen (Step relation) i i) ↔ ∀ key, ¬TransGen (Includes entries) key key := by
  constructor
  · intro hacyclic key hpath
    obtain ⟨i, a, hi, rfl⟩ := exists_entry_of_transGen hpath
    exact hacyclic i ((transGen_step_iff hdistinct h hi hi).mpr hpath)
  · intro hacyclic i hpath
    obtain ⟨a, b, hi, hj, hincludes⟩ := transGen_includes_of_step h hpath
    rw [hi] at hj
    cases hj
    exact hacyclic _ hincludes

/-- The keys of a component are those that include one another. -/
theorem mem_component_keys {i : Nat} {a : IncludeEntry} (hi : entries[i]? = some a)
    (hcycle : TransGen (Step relation) i i) {member : NamespaceKey} :
    member ∈ (component relation i).filterMap (fun j => entries[j]?.map (·.key)) ↔
      TransGen (Includes entries) a.key member ∧ TransGen (Includes entries) member a.key := by
  have hlt : i < relation.length := by
    obtain ⟨_, hstep, -⟩ := TransGen.head'_iff.mp hcycle
    exact hstep.lt
  -- On a cycle, a path of no edge can be replaced by one round.
  have hround : ∀ {j}, (ReflTransGen (Step relation) i j ∧ ReflTransGen (Step relation) j i) ↔
      TransGen (Step relation) i j ∧ TransGen (Step relation) j i :=
    fun {j} => ⟨fun ⟨hij, hji⟩ => ⟨hcycle.trans_left hij, hcycle.trans_right hji⟩,
      fun ⟨hij, hji⟩ => ⟨hij.to_reflTransGen, hji.to_reflTransGen⟩⟩
  simp only [List.mem_filterMap, Option.map_eq_some_iff]
  constructor
  · rintro ⟨j, hj, b, hb, rfl⟩
    obtain ⟨hij, hji⟩ := hround.mp ((mem_component_iff hlt).mp hj)
    exact ⟨(transGen_step_iff hdistinct h hi hb).mp hij, (transGen_step_iff hdistinct h hb hi).mp hji⟩
  · rintro ⟨hto, hfrom⟩
    obtain ⟨j, b, hj, rfl, hij⟩ := exists_transGen_step hdistinct h hto hi rfl
    have hji := (transGen_step_iff hdistinct h hj hi).mpr hfrom
    exact ⟨j, (mem_component_iff hlt).mpr (hround.mpr ⟨hij, hji⟩), b, hj, rfl⟩

omit h in
theorem nodup_component_keys (i : Nat) :
    ((component relation i).filterMap fun j => entries[j]?.map (·.key)).Nodup := by
  refine (nodup_component relation i).filterMap ?_
  intro j j' key hj hj'
  obtain ⟨b, hb, rfl⟩ := Option.map_eq_some_iff.mp hj
  obtain ⟨b', hb', hkey⟩ := Option.map_eq_some_iff.mp hj'
  exact eq_of_key_eq hdistinct hb hb' hkey.symm

end Paths

theorem sorted_cycleNames (entries : List IncludeEntry) (relation : List (List Nat)) (i : Nat) :
    (cycleNames entries relation i).Pairwise (· ≤ ·) := by
  have h : (cycleNames entries relation i).Pairwise fun a b => !decide (b < a) := by
    apply List.pairwise_mergeSort
    · intro a b c hab hbc
      simp only [Bool.not_eq_true', decide_eq_false_iff_not, not_lt] at *
      exact hab.trans hbc
    · intro a b
      simp only [Bool.or_eq_true, Bool.not_eq_true', decide_eq_false_iff_not, not_lt]
      exact le_total a b
  refine h.imp fun hab => ?_
  simpa only [Bool.not_eq_true', decide_eq_false_iff_not, not_lt] using hab

/-- The names reported at a position on a cycle are those of its component. -/
theorem namesCycle_cycleNames (hdistinct : (entries.map (·.key)).Nodup)
    (h : positions entries = .ok relation) {i : Nat} (hcycle : TransGen (Step relation) i i) :
    NamesCycle entries (cycleNames entries relation i) where
  sorted := sorted_cycleNames entries relation i
  component := by
    obtain ⟨a, b, hi, hi', hpath⟩ := transGen_includes_of_step h hcycle
    rw [hi] at hi'
    cases hi'
    refine ⟨a.key, hpath, _, nodup_component_keys hdistinct i,
      fun member => mem_component_keys hdistinct h hi hcycle, ?_⟩
    refine (List.mergeSort_perm _ _).trans (List.Perm.of_eq ?_)
    rw [List.map_filterMap]
    congr 1
    funext j
    rw [Option.map_map]
    rfl

theorem dependencyOrder_of_repeated {key : NamespaceKey}
    (h : firstRepeated? [] (entries.map (·.key)) = some key) :
    dependencyOrder entries = .error (.duplicateNamespace key.canonicalName) := by
  rw [dependencyOrder, h]
  rfl

theorem dependencyOrder_of_distinct (h : (entries.map (·.key)).Nodup) :
    dependencyOrder entries = positions entries >>= fun relation =>
      match order relation with
      | .ok found => .ok found
      | .error i => .error (.dependencyCycle (cycleNames entries relation i)) := by
  rw [dependencyOrder, firstRepeated?_nil_eq_none.mpr h]
  rfl

theorem dependencyOrder_eq_ok {found : List Nat} :
    dependencyOrder entries = .ok found ↔ (entries.map (·.key)).Nodup ∧
      ∃ relation, positions entries = .ok relation ∧ order relation = .ok found := by
  by_cases hdistinct : (entries.map (·.key)).Nodup
  · rw [dependencyOrder_of_distinct hdistinct, bind_eq_ok]
    refine ⟨fun h => ⟨hdistinct, ?_⟩, fun h => ?_⟩
    · obtain ⟨relation, hrelation, h⟩ := h
      split at h
      · next hfound =>
          cases h
          exact ⟨relation, hrelation, hfound⟩
      · cases h
    · obtain ⟨-, relation, hrelation, hfound⟩ := h
      exact ⟨relation, hrelation, by rw [hfound]⟩
  · refine ⟨fun h => ?_, fun h => absurd h.1 hdistinct⟩
    cases hrepeated : firstRepeated? [] (entries.map (·.key)) with
    | none => exact absurd (firstRepeated?_nil_eq_none.mp hrepeated) hdistinct
    | some key =>
        rw [dependencyOrder_of_repeated hrepeated] at h
        cases h

end DependencyOrder

/-- There is an order exactly for the entries that can be ordered. -/
theorem exists_dependencyOrder_iff {entries : List IncludeEntry} :
    (∃ found, dependencyOrder entries = .ok found) ↔ Orderable entries := by
  simp only [dependencyOrder_eq_ok]
  constructor
  · rintro ⟨found, hdistinct, relation, hrelation, hfound⟩
    exact ⟨hdistinct, exists_positions_iff.mp ⟨relation, hrelation⟩,
      (acyclic_iff hdistinct hrelation).mp (not_transGen_of_order hfound)⟩
  · intro h
    obtain ⟨relation, hrelation⟩ := exists_positions_iff.mpr h.known
    obtain ⟨found, hfound⟩ := (exists_order_iff (inRange_of_positions hrelation)).mpr
      ((acyclic_iff h.distinct hrelation).mpr h.acyclic)
    exact ⟨found, h.distinct, relation, hrelation, hfound⟩

section Found

variable {entries : List IncludeEntry} {found : List Nat} (h : dependencyOrder entries = .ok found)

include h

theorem perm_of_dependencyOrder : found.Perm (List.range entries.length) := by
  obtain ⟨-, relation, hrelation, hfound⟩ := dependencyOrder_eq_ok.mp h
  rw [(positions_eq_ok hrelation).length_eq]
  exact (order_eq_ok hfound).1

/-- Every included entry stands before the one that includes it. -/
theorem idxOf_lt_of_dependencyOrder {i j : Nat} {a b : IncludeEntry} (hi : entries[i]? = some a)
    (hj : entries[j]? = some b) (hmem : b.key ∈ a.includes) : found.idxOf j < found.idxOf i := by
  obtain ⟨hdistinct, relation, hrelation, hfound⟩ := dependencyOrder_eq_ok.mp h
  exact idxOf_lt_of_order hfound ((step_iff hdistinct hrelation hi hj).mpr hmem)

end Found

/-- Entries with distinct and known keys that have no order are refused with one cycle. -/
theorem exists_namesCycle_of_dependencyOrder {entries : List IncludeEntry}
    (hdistinct : (entries.map (·.key)).Nodup)
    (hknown : ∀ entry ∈ entries, ∀ key ∈ entry.includes, key ∈ entries.map (·.key))
    (hcycle : ∃ key, TransGen (Includes entries) key key) :
    ∃ names, dependencyOrder entries = .error (.dependencyCycle names) ∧
      NamesCycle entries names := by
  obtain ⟨relation, hrelation⟩ := exists_positions_iff.mpr hknown
  rw [dependencyOrder_of_distinct hdistinct, hrelation]
  cases hfound : order relation with
  | ok found =>
      obtain ⟨key, hkey⟩ := hcycle
      exact absurd hkey ((acyclic_iff hdistinct hrelation).mp (not_transGen_of_order hfound) key)
  | error i =>
      have hloop := transGen_of_order_eq_error (inRange_of_positions hrelation) hfound
      refine ⟨cycleNames entries relation i, ?_, namesCycle_cycleNames hdistinct hrelation hloop⟩
      simp only [bind, Except.bind, hfound]

/-- The first repeated key stands behind distinct ones. -/
theorem DependencyOrder.exists_of_firstRepeated?_eq_some {seen keys : List NamespaceKey}
    {key : NamespaceKey} (h : firstRepeated? seen keys = some key) :
    ∃ before after, keys = before ++ key :: after ∧ before.Nodup ∧
      (∀ k ∈ before, k ∉ seen) ∧ (key ∈ seen ∨ key ∈ before) := by
  induction keys generalizing seen with
  | nil => cases h
  | cons first keys ih =>
      rw [firstRepeated?] at h
      by_cases hfirst : first ∈ seen
      · rw [if_pos (by simpa using hfirst), Option.some.injEq] at h
        subst h
        exact ⟨[], keys, rfl, List.nodup_nil, by simp, Or.inl hfirst⟩
      · rw [if_neg (by simpa using hfirst)] at h
        obtain ⟨before, after, rfl, hnodup, hbefore, hkey⟩ := ih h
        refine ⟨first :: before, after, rfl, List.nodup_cons.mpr ⟨?_, hnodup⟩, ?_, ?_⟩
        · exact fun hmem => hbefore first hmem (by simp)
        · intro k hk
          rcases List.mem_cons.mp hk with rfl | hk
          · exact hfirst
          · exact fun hseen => hbefore k hk (List.mem_cons_of_mem _ hseen)
        · rcases hkey with hkey | hkey
          · rcases List.mem_cons.mp hkey with rfl | hkey
            · exact Or.inr (by simp)
            · exact Or.inl hkey
          · exact Or.inr (List.mem_cons_of_mem _ hkey)

/-- What entries are refused for. -/
theorem orderFault_of_dependencyOrder {entries : List IncludeEntry} {fault : Fault}
    (h : dependencyOrder entries = .error fault) : OrderFault entries fault := by
  by_cases hdistinct : (entries.map (·.key)).Nodup
  · by_cases hknown : ∀ entry ∈ entries, ∀ key ∈ entry.includes, key ∈ entries.map (·.key)
    · have hcycle : ∃ key, TransGen (Includes entries) key key := by
        by_contra hnone
        obtain ⟨found, hfound⟩ := exists_dependencyOrder_iff.mpr
          ⟨hdistinct, hknown, fun key hkey => hnone ⟨key, hkey⟩⟩
        rw [hfound] at h
        cases h
      obtain ⟨names, hnames, hcomponent⟩ :=
        exists_namesCycle_of_dependencyOrder hdistinct hknown hcycle
      rw [hnames] at h
      cases h
      exact .cycle names hdistinct hknown hcomponent
    · rw [dependencyOrder_of_distinct hdistinct] at h
      rcases bind_eq_error.mp h with h | ⟨relation, hrelation, -⟩
      · obtain ⟨before, entry, after, hentries, hbefore, h⟩ := mapM_eq_error.mp h
        obtain ⟨earlier, key, later, hincludes, hearlier, h⟩ := mapM_eq_error.mp h
        obtain ⟨hunknown, rfl⟩ := position_eq_error.mp h
        refine .unresolved before entry after earlier key later hdistinct hentries hincludes ?_ ?_
          hunknown
        · intro other hother k hk
          exact exists_position_iff.mp (exists_mapM_eq_ok.mp (hbefore other hother) k hk)
        · intro k hk
          exact exists_position_iff.mp (hearlier k hk)
      · exact absurd (exists_positions_iff.mp ⟨relation, hrelation⟩) hknown
  · cases hrepeated : firstRepeated? [] (entries.map (·.key)) with
    | none => exact absurd (firstRepeated?_nil_eq_none.mp hrepeated) hdistinct
    | some key =>
        rw [dependencyOrder_of_repeated hrepeated] at h
        cases h
        obtain ⟨keys, others, heq, hnodup, -, hmem⟩ := exists_of_firstRepeated?_eq_some hrepeated
        obtain ⟨before, rest, rfl, rfl, hrest⟩ := List.map_eq_append_iff.mp heq
        obtain ⟨entry, after, rfl, rfl, rfl⟩ := List.map_eq_cons_iff.mp hrest
        exact .duplicate before entry after rfl hnodup (hmem.resolve_left List.not_mem_nil)

/-- Entries with distinct and known keys are ordered as the two searches with a stack order their
positions. -/
theorem dependencyOrder_eq_stackSearch {entries : List IncludeEntry} {relation : List (List Nat)}
    (hdistinct : (entries.map (·.key)).Nodup) (hrelation : positions entries = .ok relation) :
    ∃ result, StackSearch.order relation = some result ∧ dependencyOrder entries =
      result.mapError fun i => .dependencyCycle (cycleNames entries relation i) := by
  refine ⟨order relation, StackSearch.order_eq relation, ?_⟩
  rw [dependencyOrder_of_distinct hdistinct, hrelation]
  cases hfound : order relation <;> simp [bind, Except.bind, Except.mapError, hfound]

/-- The order of entries is topological: there is one exactly if the keys are distinct, no unknown one is
included and none includes itself, and then every entry stands in it once, after those that it includes.
A cycle is refused with the names of one strongly connected component. The order is the one that two
searches with a stack find, along the edges added last first and back. -/
theorem dependencyOrder_topological (entries : List IncludeEntry) :
    ((∃ found, dependencyOrder entries = .ok found) ↔ Orderable entries) ∧
    (∀ found, dependencyOrder entries = .ok found →
      found.Perm (List.range entries.length) ∧
      ∀ i j a b, entries[i]? = some a → entries[j]? = some b → b.key ∈ a.includes →
        found.idxOf j < found.idxOf i) ∧
    ((entries.map (·.key)).Nodup →
      (∀ entry ∈ entries, ∀ key ∈ entry.includes, key ∈ entries.map (·.key)) →
      (∃ key, TransGen (Includes entries) key key) →
      ∃ names, dependencyOrder entries = .error (.dependencyCycle names) ∧
        NamesCycle entries names) ∧
    ((entries.map (·.key)).Nodup → ∀ relation, positions entries = .ok relation →
      ∃ result, StackSearch.order relation = some result ∧ dependencyOrder entries =
        result.mapError fun i => .dependencyCycle (cycleNames entries relation i)) := by
  refine ⟨exists_dependencyOrder_iff, fun found hfound => ⟨perm_of_dependencyOrder hfound, ?_⟩,
    exists_namesCycle_of_dependencyOrder, ?_⟩
  · intro i j a b hi hj hmem
    exact idxOf_lt_of_dependencyOrder hfound hi hj hmem
  · intro hdistinct relation hrelation
    exact dependencyOrder_eq_stackSearch hdistinct hrelation

end Interop
